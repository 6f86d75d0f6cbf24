import Mathlib

/-!
UTF-8: texts are the encodings of code points one behind the other.

The first byte of an encoding tells its length, so a text is cut between code points in one way
only; a budget is filled with whole code points until the next one does not fit.
-/
namespace Utf8

abbrev Bytes := List UInt8

def Scalar (codepoint : Nat) : Prop :=
  codepoint ≤ 0x10FFFF ∧ ¬ (0xD800 ≤ codepoint ∧ codepoint ≤ 0xDFFF)

def continuation (n : Nat) : UInt8 :=
  .ofNat (0x80 + n % 64)

def encode (codepoint : Nat) : Bytes :=
  if codepoint < 0x80 then [.ofNat codepoint]
  else if codepoint < 0x800 then [.ofNat (0xC0 + codepoint / 64), continuation codepoint]
  else if codepoint < 0x10000 then
    [.ofNat (0xE0 + codepoint / 4096), continuation (codepoint / 64), continuation codepoint]
  else
    [.ofNat (0xF0 + codepoint / 262144), continuation (codepoint / 4096),
      continuation (codepoint / 64), continuation codepoint]

def Unit (s : Bytes) : Prop :=
  ∃ codepoint, Scalar codepoint ∧ s = encode codepoint

def Valid (s : Bytes) : Prop :=
  ∃ units : List Bytes, (∀ u ∈ units, Unit u) ∧ s = units.flatten

theorem valid_nil : Valid [] :=
  ⟨[], nofun, rfl⟩

theorem Unit.valid {s : Bytes} (unit : Unit s) : Valid s :=
  ⟨[s], fun _ inside => List.mem_singleton.mp inside ▸ unit, (List.append_nil s).symm⟩

theorem Valid.append {s t : Bytes} (left : Valid s) (right : Valid t) : Valid (s ++ t) := by
  obtain ⟨units, all, rfl⟩ := left
  obtain ⟨units', all', rfl⟩ := right
  refine ⟨units ++ units', fun u inside => ?_, List.flatten_append.symm⟩
  rcases List.mem_append.mp inside with front | back
  · exact all u front
  · exact all' u back

theorem valid_flatten {units : List Bytes} (all : ∀ u ∈ units, Unit u) : Valid units.flatten :=
  ⟨units, all, rfl⟩

theorem unit_ascii {b : UInt8} (low : b < 0x80) : Unit [b] := by
  have small : b.toNat < 0x80 := UInt8.lt_iff_toNat_lt.mp low
  refine ⟨b.toNat, ⟨by omega, by omega⟩, ?_⟩
  rw [encode, if_pos small, UInt8.ofNat_toNat]

theorem valid_ascii {s : Bytes} (low : ∀ b ∈ s, b < 0x80) : Valid s := by
  refine ⟨s.map fun b => [b], fun u inside => ?_, ?_⟩
  · obtain ⟨b, member, rfl⟩ := List.mem_map.mp inside
    exact unit_ascii (low b member)
  · rw [← List.flatMap_def, List.flatMap_singleton']

theorem continuation_high (n : Nat) : 0x80 ≤ continuation n := by
  rw [continuation, UInt8.le_iff_toNat_le, UInt8.toNat_ofNat']
  grind

theorem mark_high {n : Nat} (mark : 0x80 ≤ n) (byte : n < 0x100) : 0x80 ≤ UInt8.ofNat n := by
  rw [UInt8.le_iff_toNat_le, UInt8.toNat_ofNat', Nat.mod_eq_of_lt byte]
  exact mark

theorem Unit.ascii_or_high {s : Bytes} (unit : Unit s) :
    (∃ b, b < 0x80 ∧ s = [b]) ∨ ∀ b ∈ s, 0x80 ≤ b := by
  obtain ⟨codepoint, ⟨limit, -⟩, rfl⟩ := unit
  rw [encode]
  split
  case isTrue low =>
    refine .inl ⟨_, ?_, rfl⟩
    rw [UInt8.lt_iff_toNat_lt, UInt8.toNat_ofNat', Nat.mod_eq_of_lt (by omega)]
    exact low
  case isFalse =>
    refine .inr ?_
    split
    · exact List.forall_mem_cons.mpr ⟨mark_high (by omega) (by omega),
        List.forall_mem_cons.mpr ⟨continuation_high _, nofun⟩⟩
    · split
      · exact List.forall_mem_cons.mpr ⟨mark_high (by omega) (by omega),
          List.forall_mem_cons.mpr ⟨continuation_high _,
            List.forall_mem_cons.mpr ⟨continuation_high _, nofun⟩⟩⟩
      · exact List.forall_mem_cons.mpr ⟨mark_high (by omega) (by omega),
          List.forall_mem_cons.mpr ⟨continuation_high _,
            List.forall_mem_cons.mpr ⟨continuation_high _,
              List.forall_mem_cons.mpr ⟨continuation_high _, nofun⟩⟩⟩⟩

/-! ### Cutting a text -/

def leadLength (lead : UInt8) : Nat :=
  if lead.toNat < 0x80 then 1
  else if lead.toNat < 0xE0 then 2
  else if lead.toNat < 0xF0 then 3
  else 4

theorem Unit.lead {s : Bytes} (unit : Unit s) :
    ∃ b rest, s = b :: rest ∧ s.length = leadLength b := by
  obtain ⟨codepoint, ⟨high, -⟩, rfl⟩ := unit
  rw [encode]
  split
  · refine ⟨_, _, rfl, ?_⟩
    rw [leadLength, UInt8.toNat_ofNat', if_pos (by omega)]
    rfl
  · split
    · refine ⟨_, _, rfl, ?_⟩
      rw [leadLength, UInt8.toNat_ofNat', if_neg (by omega), if_pos (by omega)]
      rfl
    · split
      · refine ⟨_, _, rfl, ?_⟩
        rw [leadLength, UInt8.toNat_ofNat', if_neg (by omega), if_neg (by omega), if_pos (by omega)]
        rfl
      · refine ⟨_, _, rfl, ?_⟩
        rw [leadLength, UInt8.toNat_ofNat', if_neg (by omega), if_neg (by omega), if_neg (by omega)]
        rfl

theorem Unit.ne_nil {s : Bytes} (unit : Unit s) : s ≠ [] := by
  obtain ⟨b, rest, rfl, -⟩ := unit.lead
  exact nofun

theorem Unit.unique {s s' t t' : Bytes} (unit : Unit s) (unit' : Unit s')
    (same : s ++ t = s' ++ t') : s = s' ∧ t = t' := by
  obtain ⟨b, rest, front, length⟩ := unit.lead
  obtain ⟨b', rest', front', length'⟩ := unit'.lead
  have head : b = b' := by
    rw [front, front'] at same
    exact (List.cons.inj same).1
  exact List.append_inj same (by rw [length, length', head])

theorem Valid.cons {b : UInt8} {s : Bytes} (valid : Valid (b :: s)) :
    ∃ u t, Unit u ∧ b :: s = u ++ t ∧ Valid t := by
  obtain ⟨units, all, whole⟩ := valid
  cases units with
  | nil => exact absurd whole nofun
  | cons u units =>
      exact ⟨u, units.flatten, all u List.mem_cons_self, whole,
        valid_flatten fun v inside => all v (List.mem_cons_of_mem u inside)⟩

theorem valid_prefix {p : Bytes} {units : List Bytes} (valid : Valid p)
    (all : ∀ u ∈ units, Unit u) (start : p <+: units.flatten) :
    ∃ k, p = (units.take k).flatten := by
  obtain ⟨own, ownAll, rfl⟩ := valid
  obtain ⟨rest, whole⟩ := start
  induction own generalizing units with
  | nil => exact ⟨0, rfl⟩
  | cons u own ih =>
      have unit := ownAll u List.mem_cons_self
      cases units with
      | nil =>
          rw [List.flatten_cons, List.append_assoc, List.flatten_nil] at whole
          exact absurd (List.append_eq_nil_iff.mp whole).1 unit.ne_nil
      | cons v units =>
          rw [List.flatten_cons, List.flatten_cons, List.append_assoc] at whole
          obtain ⟨same, later⟩ := unit.unique (all v List.mem_cons_self) whole
          obtain ⟨k, found⟩ := ih (fun w inside => all w (List.mem_cons_of_mem v inside))
            (fun w inside => ownAll w (List.mem_cons_of_mem u inside)) later
          exact ⟨k + 1, by rw [List.flatten_cons, found, same, List.take_succ_cons,
            List.flatten_cons]⟩

/-! ### Boundaries -/

def isContinuation (b : UInt8) : Bool :=
  b &&& 0xC0 == 0x80

theorem isContinuation_continuation (n : Nat) : isContinuation (continuation n) = true := by
  have all : ∀ r : Fin 64, isContinuation (UInt8.ofNat (0x80 + r)) = true := by decide
  exact all ⟨n % 64, Nat.mod_lt _ (by decide)⟩

theorem isContinuation_ascii {b : UInt8} (low : b < 0x80) : isContinuation b = false := by
  have all : ∀ n : Fin 128, isContinuation (UInt8.ofNat n) = false := by decide
  have small : b.toNat < 128 := UInt8.lt_iff_toNat_lt.mp low
  have byte := all ⟨b.toNat, small⟩
  rwa [UInt8.ofNat_toNat] at byte

theorem isContinuation_lead {n : Nat} (mark : 0xC0 ≤ n) (byte : n < 0x100) :
    isContinuation (UInt8.ofNat n) = false := by
  have all : ∀ r : Fin 64, isContinuation (UInt8.ofNat (0xC0 + r)) = false := by decide
  have one := all ⟨n - 0xC0, by omega⟩
  rwa [show 0xC0 + (n - 0xC0) = n by omega] at one

theorem Unit.shape {s : Bytes} (unit : Unit s) : ∃ b rest, s = b :: rest ∧
    isContinuation b = false ∧ (∀ c ∈ rest, isContinuation c = true) ∧ rest.length ≤ 3 := by
  obtain ⟨codepoint, ⟨limit, -⟩, rfl⟩ := unit
  have inside := isContinuation_continuation
  rw [encode]
  split
  case isTrue low =>
    refine ⟨_, [], rfl, isContinuation_ascii ?_, fun _ among => absurd among List.not_mem_nil,
      Nat.zero_le _⟩
    rw [UInt8.lt_iff_toNat_lt, UInt8.toNat_ofNat', Nat.mod_eq_of_lt (by omega)]
    exact low
  case isFalse =>
    split
    · exact ⟨_, _, rfl, isContinuation_lead (by omega) (by omega), by simp [inside], by simp⟩
    · split
      · exact ⟨_, _, rfl, isContinuation_lead (by omega) (by omega), by simp [inside], by simp⟩
      · exact ⟨_, _, rfl, isContinuation_lead (by omega) (by omega), by simp [inside], by simp⟩

/-- A place between code points: the end, or a byte that begins one. -/
def Boundary (s : Bytes) (n : Nat) : Prop :=
  ∀ b, s[n]? = some b → isContinuation b = false

theorem boundary_end {s : Bytes} {n : Nat} (past : s.length ≤ n) : Boundary s n := by
  intro b here
  rw [List.getElem?_eq_none past] at here
  cases here

theorem Valid.cut {s : Bytes} {n : Nat} (valid : Valid s) (boundary : Boundary s n) :
    Valid (s.take n) ∧ Valid (s.drop n) := by
  obtain ⟨units, all, rfl⟩ := valid
  induction units generalizing n with
  | nil =>
      rw [List.flatten_nil, List.take_nil, List.drop_nil]
      exact ⟨valid_nil, valid_nil⟩
  | cons u units ih =>
      obtain ⟨unit, later⟩ := List.forall_mem_cons.mp all
      rw [List.flatten_cons] at boundary ⊢
      by_cases within : n < u.length
      · obtain ⟨b, rest, rfl, -, inside, -⟩ := unit.shape
        cases n with
        | zero =>
            rw [List.take_zero, List.drop_zero]
            exact ⟨valid_nil, unit.valid.append (valid_flatten later)⟩
        | succ n =>
            have short : n < rest.length := Nat.lt_of_succ_lt_succ within
            have here : (b :: rest ++ units.flatten)[n + 1]? = some rest[n] := by
              rw [List.cons_append, List.getElem?_cons_succ, List.getElem?_append_left short,
                List.getElem?_eq_getElem short]
            have marked := inside rest[n] (List.getElem_mem short)
            exact absurd (boundary _ here) (by rw [marked]; rintro ⟨⟩)
      · have past : u.length ≤ n := Nat.le_of_not_lt within
        have next : Boundary units.flatten (n - u.length) := by
          intro b here
          exact boundary b (by rw [List.getElem?_append_right past, here])
        obtain ⟨front, back⟩ := ih later next
        rw [List.take_append, List.drop_append, List.take_of_length_le past,
          List.drop_eq_nil_of_le past, List.nil_append]
        exact ⟨unit.valid.append front, back⟩

theorem Valid.near {s : Bytes} (valid : Valid s) (n : Nat) :
    ∃ m, m ≤ n ∧ n ≤ m + 3 ∧ Boundary s m := by
  obtain ⟨units, all, rfl⟩ := valid
  induction units generalizing n with
  | nil => exact ⟨n, Nat.le_refl n, by omega, boundary_end (Nat.zero_le n)⟩
  | cons u units ih =>
      obtain ⟨unit, later⟩ := List.forall_mem_cons.mp all
      rw [List.flatten_cons]
      by_cases within : n < u.length
      · obtain ⟨b, rest, rfl, lead, -, short⟩ := unit.shape
        rw [List.length_cons] at within
        refine ⟨0, Nat.zero_le n, by omega, fun c here => ?_⟩
        obtain rfl := Option.some.inj here
        exact lead
      · obtain ⟨m, low, high, boundary⟩ := ih (n - u.length) later
        refine ⟨u.length + m, by omega, by omega, fun b here => boundary b ?_⟩
        rwa [List.getElem?_append_right (Nat.le_add_right _ _), Nat.add_sub_cancel_left] at here

theorem Valid.before {s r : Bytes} {b : UInt8} (valid : Valid (s ++ b :: r)) (low : b < 0x80) :
    Valid s := by
  have boundary : Boundary (s ++ b :: r) s.length := by
    intro c here
    rw [List.getElem?_append_right (Nat.le_refl _), Nat.sub_self] at here
    obtain rfl := Option.some.inj here
    exact isContinuation_ascii low
  have front := (valid.cut boundary).1
  rwa [List.take_left] at front

theorem Valid.behind {b : UInt8} {s : Bytes} (valid : Valid (b :: s)) (low : b < 0x80) :
    Valid s := by
  obtain ⟨u, t, unit, same, later⟩ := valid.cons
  obtain ⟨rfl, rfl⟩ : [b] = u ∧ s = t := (unit_ascii low).unique unit same
  exact later

/-! ### Filling a budget -/

/-- Whole units while they fit into less than `room`, and whether one did not. -/
def fill : Nat → List Bytes → Bytes × Bool
  | _, [] => ([], false)
  | room, u :: units =>
      if room ≤ u.length then ([], true)
      else
        let filled := fill (room - u.length) units
        (u ++ filled.1, filled.2)

variable {room : Nat} {units : List Bytes}

theorem fill_prefix : (fill room units).1 <+: units.flatten := by
  induction units generalizing room with
  | nil => exact List.prefix_rfl
  | cons u units ih =>
      rw [fill]
      split
      · exact List.nil_prefix
      · exact (List.prefix_append_right_inj u).mpr ih

theorem fill_units : ∃ k, (fill room units).1 = (units.take k).flatten := by
  induction units generalizing room with
  | nil => exact ⟨0, rfl⟩
  | cons u units ih =>
      rw [fill]
      split
      · exact ⟨0, rfl⟩
      · obtain ⟨k, same⟩ := @ih (room - u.length)
        refine ⟨k + 1, ?_⟩
        rw [List.take_succ_cons, List.flatten_cons, ← same]

theorem fill_fits (some : 0 < room) : (fill room units).1.length < room := by
  induction units generalizing room with
  | nil => exact some
  | cons u units ih =>
      rw [fill]
      split
      · exact some
      · have later := @ih (room - u.length) (by omega)
        rw [List.length_append]
        omega

theorem fill_cut (some : 0 < room) : (fill room units).2 = true ↔ room ≤ units.flatten.length := by
  induction units generalizing room with
  | nil => exact iff_of_false nofun (Nat.not_le.mpr some)
  | cons u units ih =>
      rw [fill, List.flatten_cons, List.length_append]
      split
      case isTrue full => exact iff_of_true rfl (by omega)
      case isFalse fits =>
        rw [@ih (room - u.length) (by omega)]
        omega

theorem fill_longest {k : Nat} (fits : (units.take k).flatten.length < room) :
    (units.take k).flatten.length ≤ (fill room units).1.length := by
  induction units generalizing room k with
  | nil =>
      rw [List.take_nil]
      exact Nat.zero_le _
  | cons u units ih =>
      cases k with
      | zero => exact Nat.zero_le _
      | succ k =>
          rw [List.take_succ_cons, List.flatten_cons, List.length_append] at fits ⊢
          rw [fill, if_neg (by omega), List.length_append]
          have later := @ih (room - u.length) k (by omega)
          omega

theorem fill_all (fits : units.flatten.length < room) : fill room units = (units.flatten, false) := by
  induction units generalizing room with
  | nil => rfl
  | cons u units ih =>
      rw [List.flatten_cons, List.length_append] at fits
      rw [fill, if_neg (by omega), ih (by omega), List.flatten_cons]

end Utf8
