import LibreEcho.Lib.CText

/-!
Reading lines into a buffer that may be shorter than a line.
-/
namespace CText

/-- The lines of a text, each with its newline; the last one may be without. -/
def linesOf : CText → List CText
  | [] => []
  | c :: s =>
      if c = '\n' then [c] :: linesOf s
      else
        match linesOf s with
        | [] => [[c]]
        | line :: rest => (c :: line) :: rest

def chopFrom : Nat → Nat → CText → List CText
  | 0, _, _ => []
  | _ + 1, _, [] => []
  | fuel + 1, room, c :: s => (c :: s).take room :: chopFrom fuel room ((c :: s).drop room)

/-- A text in pieces of `room` characters. -/
def chop (room : Nat) (s : CText) : List CText :=
  chopFrom s.length room s

theorem linesOf_flatten (s : CText) : (linesOf s).flatten = s := by
  induction s with
  | nil => rfl
  | cons c s ih =>
      rw [linesOf]
      split
      · rw [List.flatten_cons, ih]
        rfl
      · split
        · next none =>
            rw [none] at ih
            rw [← ih]
            rfl
        · next line rest found =>
            rw [found, List.flatten_cons] at ih
            rw [List.flatten_cons, List.cons_append, ih]

theorem linesOf_filled (s : CText) : ∀ line ∈ linesOf s, line ≠ [] := by
  induction s with
  | nil => exact nofun
  | cons c s ih =>
      rw [linesOf]
      split
      · exact List.forall_mem_cons.mpr ⟨nofun, ih⟩
      · split
        · exact List.forall_mem_cons.mpr ⟨nofun, nofun⟩
        · next line rest found =>
            rw [found] at ih
            exact List.forall_mem_cons.mpr ⟨nofun, (List.forall_mem_cons.mp ih).2⟩

theorem linesOf_tail {c : Char} {s line : CText} {rest : List CText}
    (lines : linesOf (c :: s) = (c :: line) :: rest) :
    linesOf s = if line = [] then rest else line :: rest := by
  have filled := linesOf_filled s
  rw [linesOf] at lines
  split at lines
  · obtain ⟨rfl, rfl⟩ : [] = line ∧ linesOf s = rest := by simpa using lines
    rfl
  · split at lines
    · next none =>
        obtain ⟨rfl, rfl⟩ : [] = line ∧ [] = rest := by simpa using lines
        exact none
    · next first others found =>
        obtain ⟨rfl, rfl⟩ : first = line ∧ others = rest := by simpa using lines
        rw [found] at filled
        rw [found, if_neg (filled first List.mem_cons_self)]

theorem linesOf_drop {s line : CText} {rest : List CText} (lines : linesOf s = line :: rest)
    (room : Nat) :
    linesOf (line.drop room ++ rest.flatten) =
      if line.drop room = [] then rest else line.drop room :: rest := by
  induction room generalizing s line rest with
  | zero =>
      have whole := linesOf_flatten s
      rw [lines, List.flatten_cons] at whole
      rw [List.drop_zero, whole, lines, if_neg]
      exact linesOf_filled s line (lines ▸ List.mem_cons_self)
  | succ room ih =>
      have whole := linesOf_flatten s
      rw [lines, List.flatten_cons] at whole
      cases line with
      | nil => exact absurd rfl (linesOf_filled s [] (lines ▸ List.mem_cons_self))
      | cons c line =>
          rw [← whole, List.cons_append] at lines
          have tail := linesOf_tail lines
          rw [List.drop_succ_cons]
          split at tail
          case isTrue last =>
            subst last
            rw [List.nil_append] at tail
            rw [List.drop_nil, List.nil_append, if_pos rfl, tail]
          case isFalse more => exact ih tail

theorem readLine_line {s line : CText} {rest : List CText} (lines : linesOf s = line :: rest)
    (room : Nat) : readLine room s = (line.take room, line.drop room ++ rest.flatten) := by
  induction s generalizing room line rest with
  | nil => exact absurd lines nofun
  | cons c s ih =>
      have whole := linesOf_flatten (c :: s)
      rw [lines, List.flatten_cons] at whole
      cases room with
      | zero =>
          rw [readLine, List.drop_zero, whole]
          rfl
      | succ room =>
          rw [linesOf] at lines
          rw [readLine]
          split
          case isTrue ends =>
            rw [if_pos ends] at lines
            obtain ⟨rfl, rfl⟩ : [c] = line ∧ linesOf s = rest := by simpa using lines
            rw [linesOf_flatten, List.take_succ_cons, List.drop_succ_cons, List.take_nil,
              List.drop_nil, List.nil_append]
          case isFalse other =>
            rw [if_neg other] at lines
            split at lines
            · next none =>
                obtain ⟨rfl, rfl⟩ : [c] = line ∧ [] = rest := by simpa using lines
                have empty := linesOf_flatten s
                rw [none] at empty
                rw [← empty]
                cases room <;> rfl
            · next first others found =>
                obtain ⟨rfl, rfl⟩ : c :: first = line ∧ others = rest := by simpa using lines
                rw [ih found]
                rfl

theorem chopFrom_fuel {m n room : Nat} {s : CText} (some : 0 < room) (left : s.length ≤ m)
    (right : s.length ≤ n) : chopFrom m room s = chopFrom n room s := by
  induction m generalizing n s with
  | zero =>
      rw [List.length_eq_zero_iff.mp (Nat.le_zero.mp left)]
      cases n <;> rfl
  | succ m ih =>
      cases s with
      | nil => cases n <;> rfl
      | cons c s =>
          cases n with
          | zero => exact absurd right (Nat.not_succ_le_zero _)
          | succ n =>
              rw [List.length_cons] at left right
              rw [chopFrom, chopFrom, ih]
              · rw [List.length_drop, List.length_cons]
                omega
              · rw [List.length_drop, List.length_cons]
                omega

theorem chop_step {room : Nat} (some : 0 < room) {s : CText} (filled : s ≠ []) :
    chop room s = s.take room :: chop room (s.drop room) := by
  cases s with
  | nil => exact absurd rfl filled
  | cons c s =>
      rw [chop, List.length_cons, chopFrom, chop]
      refine congrArg _ (chopFrom_fuel some ?_ (Nat.le_refl _))
      rw [List.length_drop, List.length_cons]
      omega

theorem chop_flatten {room : Nat} (some : 0 < room) (s : CText) : (chop room s).flatten = s := by
  induction length : s.length using Nat.strongRecOn generalizing s with
  | ind n ih =>
      by_cases filled : s = []
      · rw [filled]
        rfl
      · have longer := List.length_pos_iff.mpr filled
        rw [chop_step some filled, List.flatten_cons, ih (s.drop room).length _ _ rfl,
          List.take_append_drop]
        rw [List.length_drop]
        omega

theorem chopFrom_piece {fuel room : Nat} (some : 0 < room) (s : CText) :
    ∀ piece ∈ chopFrom fuel room s, piece ≠ [] ∧ piece.length ≤ room := by
  induction fuel generalizing s with
  | zero => exact nofun
  | succ fuel ih =>
      cases s with
      | nil => exact nofun
      | cons c s =>
          refine List.forall_mem_cons.mpr ⟨⟨?_, List.length_take_le _ _⟩, ih _⟩
          rw [Ne, List.take_eq_nil_iff]
          exact fun none => none.elim (Nat.ne_of_gt some) nofun

theorem chop_piece {room : Nat} (some : 0 < room) (s : CText) :
    ∀ piece ∈ chop room s, piece ≠ [] ∧ piece.length ≤ room :=
  chopFrom_piece some s

theorem readLinesFrom_lines {fuel room : Nat} (some : 0 < room) {s : CText}
    (enough : s.length ≤ fuel) :
    readLinesFrom fuel room s = (linesOf s).flatMap (chop room) := by
  induction fuel generalizing s with
  | zero =>
      rw [List.length_eq_zero_iff.mp (Nat.le_zero.mp enough)]
      rfl
  | succ fuel ih =>
      cases s with
      | nil => rfl
      | cons c s =>
          cases lines : linesOf (c :: s) with
          | nil =>
              have whole := linesOf_flatten (c :: s)
              rw [lines] at whole
              exact absurd whole nofun
          | cons line rest =>
              have filled := linesOf_filled (c :: s) line (lines ▸ List.mem_cons_self)
              have longer := List.length_pos_iff.mpr filled
              have whole := congrArg List.length (linesOf_flatten (c :: s))
              rw [lines, List.flatten_cons, List.length_append] at whole
              have shorter : (line.drop room ++ rest.flatten).length ≤ fuel := by
                rw [List.length_append, List.length_drop]
                omega
              rw [readLinesFrom, readLine_line lines, ih shorter, linesOf_drop lines,
                List.flatMap_cons, chop_step some filled, List.cons_append]
              split
              · next last =>
                  rw [last]
                  rfl
              · rw [List.flatMap_cons]

theorem readLines_lines {size : Nat} (some : 1 < size) (s : CText) :
    readLines size s = (linesOf s).flatMap (chop (size - 1)) :=
  readLinesFrom_lines (Nat.sub_pos_of_lt some) (Nat.le_refl _)

theorem linesOf_ends {s : CText} {before after : List CText} {line : CText}
    (lines : linesOf s = before ++ line :: after) :
    '\n' ∉ line.dropLast ∧ (after ≠ [] → line.getLast? = some '\n') := by
  induction s generalizing before line after with
  | nil => exact absurd lines (by simp [linesOf])
  | cons c s ih =>
      rw [linesOf] at lines
      split at lines
      case isTrue ends =>
        subst ends
        cases before with
        | nil =>
            obtain ⟨rfl, -⟩ := List.cons.inj lines
            exact ⟨nofun, fun _ => rfl⟩
        | cons first before => exact ih (List.cons.inj lines).2
      case isFalse other =>
        split at lines
        case h_1 none =>
          cases before with
          | nil =>
              obtain ⟨rfl, rfl⟩ := List.cons.inj lines
              exact ⟨nofun, fun more => absurd rfl more⟩
          | cons first before => exact absurd (List.cons.inj lines).2 (by simp)
        case h_2 first others found =>
          have filled := linesOf_filled s first (found ▸ List.mem_cons_self)
          cases before with
          | nil =>
              obtain ⟨rfl, rfl⟩ := List.cons.inj lines
              obtain ⟨free, ends⟩ := @ih [] _ _ found
              obtain ⟨d, tail, rfl⟩ := List.exists_cons_of_ne_nil filled
              refine ⟨?_, fun more => ?_⟩
              · rw [List.dropLast_cons₂, List.mem_cons, not_or]
                exact ⟨Ne.symm other, free⟩
              · rw [List.getLast?_cons_cons]
                exact ends more
          | cons line before =>
              obtain ⟨-, rest⟩ := List.cons.inj lines
              exact @ih (first :: before) _ _ (found.trans (congrArg (first :: ·) rest))

end CText
