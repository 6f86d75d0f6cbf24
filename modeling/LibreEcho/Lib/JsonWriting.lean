import LibreEcho.Lib.JsonFields
import LibreEcho.Lib.Utf8

/-!
JSON as a program writes it: values and members with a comma between them.

A text is written from its members or elements, so what it says is known from how it was
written, its length is the sum of the lengths, and it is UTF-8 if the written texts are.
-/
namespace JsonGrammar

/-! ### Joining -/

theorem intercalate_singleton (sep t : Bytes) : sep.intercalate [t] = t := by
  simp [List.intercalate]

theorem intercalate_cons (sep t : Bytes) {texts : List Bytes} (more : texts ≠ []) :
    sep.intercalate (t :: texts) = t ++ (sep ++ sep.intercalate texts) := by
  cases texts with
  | nil => exact absurd rfl more
  | cons u texts => simp [List.intercalate]

theorem intercalate_concat (sep t : Bytes) (texts : List Bytes) :
    sep.intercalate (texts ++ [t]) =
      sep.intercalate texts ++ ((if texts = [] then [] else sep) ++ t) := by
  induction texts with
  | nil => simp [List.intercalate]
  | cons u texts ih =>
      by_cases last : texts = []
      · subst last
        simp [List.intercalate]
      · rw [List.cons_append, intercalate_cons sep u (by simp), ih, if_neg last,
          intercalate_cons sep u last, if_neg (List.cons_ne_nil u texts)]
        simp

theorem length_intercalate_le (sep : Bytes) (texts : List Bytes) :
    (sep.intercalate texts).length ≤ (texts.map fun t => t.length + sep.length).sum := by
  induction texts with
  | nil => exact Nat.zero_le _
  | cons t texts ih =>
      by_cases last : texts = []
      · subst last
        simp [List.intercalate]
      · rw [intercalate_cons sep t last, List.length_append, List.length_append, List.map_cons,
          List.sum_cons]
        omega

theorem valid_intercalate {sep : Bytes} {texts : List Bytes} (separator : Utf8.Valid sep)
    (all : ∀ t ∈ texts, Utf8.Valid t) : Utf8.Valid (sep.intercalate texts) := by
  induction texts with
  | nil => exact Utf8.valid_nil
  | cons t texts ih =>
      obtain ⟨here, later⟩ := List.forall_mem_cons.mp all
      by_cases last : texts = []
      · subst last
        rw [intercalate_singleton]
        exact here
      · rw [intercalate_cons sep t last]
        exact here.append (separator.append (ih later))

theorem forall_mem_intercalate {P : UInt8 → Prop} {sep : Bytes} {texts : List Bytes}
    (between : ∀ b ∈ sep, P b) (all : ∀ t ∈ texts, ∀ b ∈ t, P b) :
    ∀ b ∈ sep.intercalate texts, P b := by
  induction texts with
  | nil => exact nofun
  | cons t texts ih =>
      obtain ⟨here, later⟩ := List.forall_mem_cons.mp all
      by_cases last : texts = []
      · subst last
        rw [intercalate_singleton]
        exact here
      · rw [intercalate_cons sep t last]
        exact List.forall_mem_append.mpr ⟨here, List.forall_mem_append.mpr ⟨between, ih later⟩⟩

/-! ### Objects and arrays -/

def memberText (gap : Bytes) (field : Bytes × Bytes) : Bytes :=
  quote :: (field.1 ++ quote :: colon :: (gap ++ field.2))

def writtenObject (fields : List (Bytes × Bytes)) : Bytes :=
  lbrace :: ([comma].intercalate (fields.map (memberText [])) ++ [rbrace])

def writtenArray (values : List Bytes) : Bytes :=
  lbracket :: ([comma].intercalate values ++ [rbracket])

def quotedText (s : Bytes) : Bytes :=
  quote :: (s ++ [quote])

section
variable {d : Nat} {fields : List (Bytes × Bytes)} {values : List Bytes}

theorem fields_written {gap w : Bytes} (wide : Spaces gap) (apart : Spaces w)
    (filled : fields ≠ []) (names : ∀ f ∈ fields, Chars f.1)
    (derived : ∀ f ∈ fields, Derives .value d f.2) :
    Fields d fields ((comma :: w).intercalate (fields.map (memberText gap))) := by
  induction fields with
  | nil => exact absurd rfl filled
  | cons field fields ih =>
      obtain ⟨k, v⟩ := field
      obtain ⟨name, names⟩ := List.forall_mem_cons.mp names
      obtain ⟨value, derived⟩ := List.forall_mem_cons.mp derived
      rw [List.map_cons]
      by_cases last : fields = []
      · subst last
        rw [List.map_nil, intercalate_singleton]
        have field := Fields.last name spaces_nil wide value
        simpa [memberText] using field
      · rw [intercalate_cons _ _ (by simpa using last)]
        have field := Fields.more name spaces_nil wide value spaces_nil apart
          (ih last names derived)
        simpa [memberText] using field

theorem record_written (filled : fields ≠ []) (names : ∀ f ∈ fields, Chars f.1)
    (derived : ∀ f ∈ fields, Derives .value d f.2) : Record d fields (writtenObject fields) :=
  ⟨[], [], _, [], [], spaces_nil, spaces_nil,
    fields_written spaces_nil spaces_nil filled names derived, spaces_nil, spaces_nil, rfl⟩

theorem object_written (filled : fields ≠ []) (names : ∀ f ∈ fields, Chars f.1)
    (derived : ∀ f ∈ fields, Derives .value d f.2) :
    Derives .object (d + 1) (writtenObject fields) := by
  have members := fields_derives (fields_written spaces_nil spaces_nil filled names derived)
  exact Derives.object spaces_nil members spaces_nil

theorem array_written (derived : ∀ v ∈ values, Derives .value d v) :
    Derives .array (d + 1) (writtenArray values) := by
  have elements : values ≠ [] → Derives .elements d ([comma].intercalate values) := by
    intro filled
    induction values with
    | nil => exact absurd rfl filled
    | cons v values ih =>
        obtain ⟨value, derived⟩ := List.forall_mem_cons.mp derived
        by_cases last : values = []
        · subst last
          rw [intercalate_singleton]
          exact .element value
        · rw [intercalate_cons _ _ last]
          exact .elements value spaces_nil spaces_nil (ih derived last)
  by_cases none : values = []
  · subst none
    exact .emptyArray spaces_nil
  · exact .array spaces_nil (elements none) spaces_nil

theorem length_memberText (gap : Bytes) (field : Bytes × Bytes) :
    (memberText gap field).length = field.1.length + field.2.length + gap.length + 3 := by
  simp only [memberText, List.length_cons, List.length_append]
  omega

theorem length_writtenObject_le (fields : List (Bytes × Bytes)) :
    (writtenObject fields).length ≤
      (fields.map fun f => f.1.length + f.2.length + 4).sum + 2 := by
  have joined := length_intercalate_le [comma] (fields.map (memberText []))
  have sizes : (fields.map (memberText [])).map (fun t => t.length + [comma].length) =
      fields.map fun f => f.1.length + f.2.length + 4 := by
    rw [List.map_map]
    exact List.map_congr_left fun f _ => congrArg (· + 1) (length_memberText [] f)
  rw [sizes] at joined
  simp only [writtenObject, List.length_cons, List.length_append, List.length_nil]
  omega

theorem length_quotedText (s : Bytes) : (quotedText s).length = s.length + 2 := by
  simp [quotedText]

theorem quoted_value {s : Bytes} (chars : Chars s) : Derives .value d (quotedText s) :=
  .string (.quoted chars)

theorem valid_quotedText {s : Bytes} (valid : Utf8.Valid s) : Utf8.Valid (quotedText s) :=
  Utf8.Valid.append (s := [quote]) (Utf8.valid_ascii (by decide))
    (valid.append (Utf8.valid_ascii (by decide)))

theorem valid_memberText {field : Bytes × Bytes} (name : Utf8.Valid field.1)
    (value : Utf8.Valid field.2) : Utf8.Valid (memberText [] field) :=
  Utf8.Valid.append (s := [quote]) (Utf8.valid_ascii (by decide))
    (name.append (Utf8.Valid.append (s := [quote, colon]) (Utf8.valid_ascii (by decide)) value))

theorem valid_writtenObject (names : ∀ f ∈ fields, Utf8.Valid f.1)
    (derived : ∀ f ∈ fields, Utf8.Valid f.2) : Utf8.Valid (writtenObject fields) := by
  refine Utf8.Valid.append (s := [lbrace]) (Utf8.valid_ascii (by decide))
    (Utf8.Valid.append (valid_intercalate (Utf8.valid_ascii (by decide)) ?_)
      (Utf8.valid_ascii (by decide)))
  intro t member
  obtain ⟨f, inside, rfl⟩ := List.mem_map.mp member
  exact valid_memberText (names f inside) (derived f inside)

theorem high_writtenObject (names : ∀ f ∈ fields, ∀ b ∈ f.1, 0x20 ≤ b)
    (values : ∀ f ∈ fields, ∀ b ∈ f.2, 0x20 ≤ b) : ∀ b ∈ writtenObject fields, 0x20 ≤ b := by
  refine List.forall_mem_cons.mpr ⟨by decide, List.forall_mem_append.mpr ⟨?_, by decide⟩⟩
  refine forall_mem_intercalate (by decide) fun t member => ?_
  obtain ⟨f, known, rfl⟩ := List.mem_map.mp member
  refine List.forall_mem_cons.mpr ⟨by decide, List.forall_mem_append.mpr ⟨names f known, ?_⟩⟩
  exact List.forall_mem_cons.mpr ⟨by decide, List.forall_mem_cons.mpr ⟨by decide, values f known⟩⟩

theorem valid_writtenArray (derived : ∀ v ∈ values, Utf8.Valid v) :
    Utf8.Valid (writtenArray values) :=
  Utf8.Valid.append (s := [lbracket]) (Utf8.valid_ascii (by decide))
    ((valid_intercalate (Utf8.valid_ascii (by decide)) derived).append
      (Utf8.valid_ascii (by decide)))

end
end JsonGrammar
