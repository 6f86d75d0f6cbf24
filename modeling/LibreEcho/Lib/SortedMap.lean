import Mathlib

/-!
Maps as their entries in the order of the keys.
-/
universe u v

structure SortedMap (κ : Type u) (ν : Type v) [LinearOrder κ] where
  entries : List (κ × ν)
  sorted : entries.Pairwise fun a b => a.1 < b.1

namespace SortedMap
variable {κ : Type u} {ν : Type v} [LinearOrder κ]

@[ext] theorem ext {m m' : SortedMap κ ν} (same : m.entries = m'.entries) : m = m' := by
  cases m
  cases m'
  cases same
  rfl

instance [DecidableEq ν] : DecidableEq (SortedMap κ ν) := fun m m' =>
  decidable_of_iff (m.entries = m'.entries) ⟨ext, fun same => same ▸ rfl⟩

def empty : SortedMap κ ν := ⟨[], .nil⟩

def insertEntry (k : κ) (v : ν) : List (κ × ν) → List (κ × ν)
  | [] => [(k, v)]
  | e :: rest =>
      if k < e.1 then (k, v) :: e :: rest
      else if k = e.1 then (k, v) :: rest
      else e :: insertEntry k v rest

theorem mem_insertEntry {k : κ} {v : ν} {l : List (κ × ν)} {e : κ × ν}
    (member : e ∈ insertEntry k v l) : e = (k, v) ∨ e ∈ l := by
  induction l with
  | nil => exact .inl (List.mem_singleton.mp member)
  | cons x rest ih =>
      rw [insertEntry] at member
      split at member
      case isTrue => exact List.mem_cons.mp member
      case isFalse =>
        split at member
        case isTrue =>
          exact (List.mem_cons.mp member).imp_right (List.mem_cons_of_mem _)
        case isFalse =>
          obtain rfl | member := List.mem_cons.mp member
          · exact .inr List.mem_cons_self
          · exact (ih member).imp_right (List.mem_cons_of_mem _)

theorem insertEntry_sorted (k : κ) (v : ν) {l : List (κ × ν)}
    (sorted : l.Pairwise fun a b => a.1 < b.1) :
    (insertEntry k v l).Pairwise fun a b => a.1 < b.1 := by
  induction l with
  | nil => exact List.pairwise_singleton _ _
  | cons x rest ih =>
      obtain ⟨first, later⟩ := List.pairwise_cons.mp sorted
      rw [insertEntry]
      split
      case isTrue below =>
        refine List.pairwise_cons.mpr ⟨fun e member => ?_, sorted⟩
        obtain rfl | member := List.mem_cons.mp member
        · exact below
        · exact lt_trans below (first e member)
      case isFalse notBelow =>
        split
        case isTrue same => exact List.pairwise_cons.mpr ⟨fun e member => same ▸ first e member, later⟩
        case isFalse other =>
          refine List.pairwise_cons.mpr ⟨fun e member => ?_, ih later⟩
          obtain rfl | member := mem_insertEntry member
          · exact lt_of_le_of_ne (not_lt.mp notBelow) (Ne.symm other)
          · exact first e member

theorem insertEntry_last {k : κ} (v : ν) {l : List (κ × ν)} (above : ∀ e ∈ l, e.1 < k) :
    insertEntry k v l = l ++ [(k, v)] := by
  induction l with
  | nil => rfl
  | cons x rest ih =>
      have low := above x List.mem_cons_self
      rw [insertEntry, if_neg (not_lt.mpr low.le), if_neg (ne_of_gt low),
        ih fun e member => above e (List.mem_cons_of_mem _ member), List.cons_append]

theorem insertEntry_perm {k : κ} (v : ν) {l : List (κ × ν)} (new : ∀ e ∈ l, e.1 ≠ k) :
    (insertEntry k v l).Perm ((k, v) :: l) := by
  induction l with
  | nil => exact .refl _
  | cons x rest ih =>
      rw [insertEntry]
      split
      case isTrue => exact .refl _
      case isFalse =>
        rw [if_neg (Ne.symm (new x List.mem_cons_self))]
        exact ((ih fun e member => new e (List.mem_cons_of_mem _ member)).cons x).trans
          (.swap _ _ _)

def insert (m : SortedMap κ ν) (k : κ) (v : ν) : SortedMap κ ν :=
  ⟨insertEntry k v m.entries, insertEntry_sorted k v m.sorted⟩

def erase (m : SortedMap κ ν) (k : κ) : SortedMap κ ν :=
  ⟨m.entries.filter (·.1 ≠ k), m.sorted.filter _⟩

def has (m : SortedMap κ ν) (k : κ) : Bool :=
  m.entries.any (·.1 = k)

theorem has_eq_false {m : SortedMap κ ν} {k : κ} :
    m.has k = false ↔ ∀ e ∈ m.entries, e.1 ≠ k := by
  simp [has]

theorem erase_absent {m : SortedMap κ ν} {k : κ} (absent : m.has k = false) : m.erase k = m := by
  refine ext (List.filter_eq_self.mpr fun e member => ?_)
  exact decide_eq_true (has_eq_false.mp absent e member)

theorem sum_insert {m : SortedMap κ ν} {k : κ} (v : ν) (new : m.has k = false)
    (f : κ × ν → Nat) :
    ((m.insert k v).entries.map f).sum = f (k, v) + (m.entries.map f).sum := by
  have moved := (insertEntry_perm v (has_eq_false.mp new)).map f
  rw [insert, moved.sum_eq, List.map_cons, List.sum_cons]

end SortedMap
