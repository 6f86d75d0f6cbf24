import Mathlib

/-!
The wire form of domain names and of the records of a DNS answer.

A name is labels, each behind its length, and ends with a zero byte or with a pointer to the rest of
it. A name has at most 127 labels. A record is a name, its type and class, four bytes of lifetime and
its data behind their length.
-/
namespace DnsMessage

abbrev Bytes := List UInt8

def labelMax : Nat := 63
def labelsMax : Nat := 127

def word (high low : UInt8) : Nat :=
  high.toNat * 256 + low.toNat

def isPointer (b : UInt8) : Bool :=
  b &&& 0xc0 == 0xc0

/-- A name with so many labels. -/
inductive Name : Nat → Bytes → Prop where
  | root : Name 0 [0]
  | pointer {high low : UInt8} : isPointer high = true → Name 0 [high, low]
  | label {n : Nat} {length : UInt8} {body rest : Bytes} : length ≠ 0 → length.toNat ≤ labelMax →
      body.length = length.toNat → Name n rest → Name (n + 1) (length :: (body ++ rest))

/-- A record of the type and class with the data. -/
inductive Record : Nat → Nat → Bytes → Bytes → Prop where
  | parts {n : Nat} {name ttl data : Bytes} {t₁ t₂ c₁ c₂ l₁ l₂ : UInt8} : Name n name →
      n ≤ labelsMax → ttl.length = 4 → data.length = word l₁ l₂ →
      Record (word t₁ t₂) (word c₁ c₂) data
        (name ++ (t₁ :: t₂ :: c₁ :: c₂ :: (ttl ++ (l₁ :: l₂ :: data))))

def IsAddress (type klass : Nat) (data : Bytes) : Prop :=
  type = 1 ∧ klass = 1 ∧ data.length = 4

instance (type klass : Nat) (data : Bytes) : Decidable (IsAddress type klass data) :=
  inferInstanceAs (Decidable (_ ∧ _ ∧ _))

/-- The address of the first address record among so many. -/
inductive FirstAddress : Nat → Bytes → Bytes → Prop where
  | here {n type klass : Nat} {data record rest : Bytes} : Record type klass data record →
      IsAddress type klass data → FirstAddress (n + 1) (record ++ rest) data
  | later {n type klass : Nat} {data record rest address : Bytes} : Record type klass data record →
      ¬IsAddress type klass data → FirstAddress n rest address →
      FirstAddress (n + 1) (record ++ rest) address

/-- A response without error to one question of the query, with an address in its answers. -/
inductive Answered (id : Nat) : Bytes → Bytes → Prop where
  | parts {i₁ i₂ f₁ f₂ q₁ q₂ a₁ a₂ : UInt8} {counts question asked records address : Bytes}
      {n : Nat} : word i₁ i₂ = id → 0x80 ≤ f₁ → f₂ &&& 0x0f = 0 → word q₁ q₂ = 1 →
      counts.length = 4 → Name n question → n ≤ labelsMax → asked.length = 4 →
      FirstAddress (word a₁ a₂) records address →
      Answered id (i₁ :: i₂ :: f₁ :: f₂ :: q₁ :: q₂ :: a₁ :: a₂ ::
        (counts ++ (question ++ (asked ++ records)))) address

/-! ### Names of labels -/

def IsLabel (label : Bytes) : Prop :=
  label ≠ [] ∧ label.length ≤ labelMax

def labelText (label : Bytes) : Bytes :=
  UInt8.ofNat label.length :: label

def nameText (labels : List Bytes) : Bytes :=
  labels.flatMap labelText ++ [0]

theorem nameText_cons (label : Bytes) (labels : List Bytes) :
    nameText (label :: labels) = labelText label ++ nameText labels := by
  rw [nameText, List.flatMap_cons, List.append_assoc]
  rfl

theorem length_ofNat {label : Bytes} (isLabel : IsLabel label) :
    (UInt8.ofNat label.length).toNat = label.length := by
  have short := isLabel.2
  rw [labelMax] at short
  rw [UInt8.toNat_ofNat']
  omega

theorem nameText_name {labels : List Bytes} (each : ∀ label ∈ labels, IsLabel label) :
    Name labels.length (nameText labels) := by
  induction labels with
  | nil => exact .root
  | cons label labels ih =>
      have isLabel := each label List.mem_cons_self
      have length := length_ofNat isLabel
      have filled := List.length_pos_of_ne_nil isLabel.1
      rw [nameText_cons]
      refine .label (fun none => ?_) (Nat.le_trans (Nat.le_of_eq length) isLabel.2) length.symm
        (ih fun other member => each other (List.mem_cons_of_mem label member))
      rw [none] at length
      exact absurd length (by rw [UInt8.toNat_zero]; omega)

theorem labels_le {labels : List Bytes} (each : ∀ label ∈ labels, IsLabel label) :
    2 * labels.length < (nameText labels).length := by
  induction labels with
  | nil => exact Nat.one_pos
  | cons label labels ih =>
      have filled := List.length_pos_of_ne_nil (each label List.mem_cons_self).1
      have rest := ih fun other member => each other (List.mem_cons_of_mem label member)
      rw [nameText_cons, List.length_append, labelText, List.length_cons, List.length_cons]
      omega

end DnsMessage
