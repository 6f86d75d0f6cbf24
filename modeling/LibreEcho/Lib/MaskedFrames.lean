import LibreEcho.Lib.LittleEndian
import Mathlib

/-!
Frames as a WebSocket carries them: two bytes of flags and length, the longer forms of a length in
network order, four bytes of a key if the payload is covered by it, and the payload.

A length takes the shortest of its three forms.
-/
namespace MaskedFrames

abbrev Bytes := List UInt8

abbrev Key := Fin 4 → UInt8

def cover (key : Key) (s : Bytes) : Bytes :=
  s.mapIdx fun i b => b ^^^ key ⟨i % 4, Nat.mod_lt _ (by decide)⟩

theorem cover_length (key : Key) (s : Bytes) : (cover key s).length = s.length :=
  List.length_mapIdx

theorem cover_cover (key : Key) (s : Bytes) : cover key (cover key s) = s := by
  rw [cover, cover, List.mapIdx_mapIdx]
  refine List.ext_getElem (by rw [List.length_mapIdx]) fun i _ _ => ?_
  rw [List.getElem_mapIdx]
  simp [UInt8.xor_assoc]

structure Frame where
  fin : Bool
  reserved : Nat
  opcode : Nat
  key : Option Key
  payload : Bytes

def wide (count n : Nat) : Bytes :=
  (LittleEndian.put count n).reverse

def wideValue (s : Bytes) : Nat :=
  LittleEndian.get s.reverse

theorem wide_length (count n : Nat) : (wide count n).length = count := by
  rw [wide, List.length_reverse, LittleEndian.put_length]

theorem wideValue_wide {count n : Nat} (fits : n < 256 ^ count) : wideValue (wide count n) = n := by
  rw [wideValue, wide, List.reverse_reverse, LittleEndian.get_put_lt fits]

/-- A length of the long form `count`, which no shorter form has. -/
def readWide (count least : Nat) (s : Bytes) : Option (Nat × Bytes) :=
  let n := wideValue (s.take count)
  if count ≤ s.length ∧ least ≤ n then some (n, s.drop count) else none

def readLength (short : Nat) (s : Bytes) : Option (Nat × Bytes) :=
  if short < 126 then some (short, s)
  else if short = 126 then readWide 2 126 s
  else readWide 8 65536 s

def readKey (masked : Bool) (s : Bytes) : Option (Option Key × Bytes) :=
  if masked then
    match s with
    | a :: b :: c :: d :: rest => some (some ![a, b, c, d], rest)
    | _ => none
  else some (none, s)

def readFrame : Bytes → Option (Frame × Bytes)
  | first :: second :: rest =>
      (readLength (second.toNat % 128) rest).bind fun (length, rest) =>
        (readKey (128 ≤ second.toNat) rest).bind fun (key, rest) =>
          if length ≤ rest.length then
            let payload := rest.take length
            some (⟨128 ≤ first.toNat, first.toNat / 16 % 8, first.toNat % 16, key,
              key.elim payload (cover · payload)⟩, rest.drop length)
          else none
  | _ => none

/-- The length of a payload in its shortest form, below the bit of the key. -/
def lengthForm (length : Nat) : Nat × Bytes :=
  if length < 126 then (length, [])
  else if length < 65536 then (126, wide 2 length)
  else (127, wide 8 length)

theorem lengthForm_short (length : Nat) : (lengthForm length).1 < 128 := by
  rw [lengthForm]
  split
  · omega
  · split
    · exact (by decide : 126 < 128)
    · exact (by decide : 127 < 128)

theorem readWide_wide {count least n : Nat} (fits : n < 256 ^ count) (long : least ≤ n) (rest : Bytes) :
    readWide count least (wide count n ++ rest) = some (n, rest) := by
  have length := wide_length count n
  rw [readWide, List.take_left' length, List.drop_left' length, wideValue_wide fits, if_pos]
  rw [List.length_append, length]
  exact ⟨Nat.le_add_right _ _, long⟩

theorem readLength_form {length : Nat} (fits : length < 2 ^ 64) (rest : Bytes) :
    readLength (lengthForm length).1 ((lengthForm length).2 ++ rest) = some (length, rest) := by
  rw [lengthForm]
  split
  case isTrue short =>
    rw [readLength, if_pos short]
    rfl
  case isFalse long =>
    split
    case isTrue middle =>
      dsimp only
      rw [readLength, if_neg (by decide), if_pos rfl]
      exact readWide_wide (by omega) (Nat.not_lt.mp long) rest
    case isFalse large =>
      dsimp only
      rw [readLength, if_neg (by decide), if_neg (by decide)]
      exact readWide_wide (by omega) (Nat.not_lt.mp large) rest

theorem readFrame_masked {first second : UInt8} {length : Nat} {payload : Bytes} (key : Key)
    (whole : payload.length = length) (fits : length < 2 ^ 64)
    (form : second.toNat = 128 + (lengthForm length).1) (rest : Bytes) :
    readFrame (first :: second :: ((lengthForm length).2 ++
        (List.ofFn key ++ (cover key payload ++ rest)))) =
      some (⟨128 ≤ first.toNat, first.toNat / 16 % 8, first.toNat % 16, some key, payload⟩, rest) := by
  have short := lengthForm_short length
  have seven : second.toNat % 128 = (lengthForm length).1 := by omega
  have four : List.ofFn key ++ (cover key payload ++ rest) =
      key 0 :: key 1 :: key 2 :: key 3 :: (cover key payload ++ rest) := by
    simp [List.ofFn_succ]
  have same : ![key 0, key 1, key 2, key 3] = key := by
    funext i
    match i with
    | 0 | 1 | 2 | 3 => rfl
  have covered : (cover key payload).length = length := (cover_length key payload).trans whole
  rw [readFrame, seven, readLength_form fits, Option.bind_some]
  dsimp only
  rw [four, readKey, if_pos (decide_eq_true (by omega))]
  rw [Option.bind_some]
  dsimp only
  rw [same, List.take_left' covered, List.drop_left' covered, if_pos]
  · dsimp only [Option.elim]
    rw [cover_cover]
  · rw [List.length_append, covered]
    exact Nat.le_add_right _ _

end MaskedFrames
