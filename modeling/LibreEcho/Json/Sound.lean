import LibreEcho.Json.Cursor

/-!
What the parse functions accept is derived by the grammar.

A cursor is followed by the text it has not read yet. With fuel for that text a
parse function fails, or it moves the cursor over a text of its kind.
-/
namespace LibreEcho.Json
open JsonGrammar

/-! ### The rest of the text -/

def JsonCursor.rest (c : JsonCursor) : Bytes :=
  c.s.drop c.i

variable {c c' c'' : JsonCursor} {b : UInt8} {r t t' : Bytes} {use : UInt8 → Step}

theorem atEnd_nil (rest : c.rest = []) : c.atEnd = true := by
  rw [JsonCursor.rest, List.drop_eq_nil_iff] at rest
  exact decide_eq_true rest

theorem atEnd_cons (rest : c.rest = b :: r) : c.atEnd = false := by
  refine decide_eq_false (fun beyond => ?_)
  rw [JsonCursor.rest, List.drop_eq_nil_of_le beyond] at rest
  exact absurd rest (by simp)

theorem reading_cons (rest : c.rest = b :: r) : c.reading use = use b := by
  have here : c.s[c.i]? = some b := by
    rw [← List.head?_drop]
    exact congrArg List.head? rest
  rw [JsonCursor.reading, here]

@[simp] theorem rest_skip (c : JsonCursor) (k : Nat) : (c.skip k).rest = c.rest.drop k :=
  List.drop_drop.symm

@[simp] theorem rest_deeper (c : JsonCursor) : (deeper c).rest = c.rest := rfl

@[simp] theorem skip_skip (c : JsonCursor) (j k : Nat) : (c.skip j).skip k = c.skip (j + k) := by
  simp only [JsonCursor.skip, Nat.add_assoc]

theorem rounds_eq (c : JsonCursor) : c.rounds = c.rest.length + 1 := by
  rw [JsonCursor.rounds, JsonCursor.rest, List.length_drop]

structure Took (c : JsonCursor) (t : Bytes) (c' : JsonCursor) : Prop where
  moved : c' = c.skip t.length
  text : c.rest = t ++ c'.rest

theorem took_nil (c : JsonCursor) : Took c [] c :=
  ⟨rfl, rfl⟩

theorem took_text (text : c.rest = t ++ r) : Took c t (c.skip t.length) := by
  refine ⟨rfl, ?_⟩
  rw [rest_skip, text, List.drop_left]

theorem took_one (rest : c.rest = b :: r) : Took c [b] (c.skip 1) :=
  took_text (t := [b]) rest

theorem Took.append (first : Took c t c') (second : Took c' t' c'') : Took c (t ++ t') c'' := by
  refine ⟨?_, ?_⟩
  · rw [second.moved, first.moved, skip_skip, List.length_append]
  · rw [first.text, second.text, List.append_assoc]

theorem Took.cons (first : Took c [b] c') (second : Took c' t c'') : Took c (b :: t) c'' :=
  first.append second

theorem Took.depth (took : Took c t c') : c'.depth = c.depth := by
  rw [took.moved]
  rfl

theorem Took.length (took : Took c t c') : c.rest.length = t.length + c'.rest.length := by
  rw [took.text, List.length_append]

/-! ### Outcomes without a fault -/

/-- The step fails, or it leaves a cursor with the property. -/
def Step.Meets (x : Step) (P : JsonCursor → Prop) : Prop :=
  x = .failed ∨ ∃ c, x = .done c ∧ P c

variable {P Q : JsonCursor → Prop}

theorem meets_failed : Step.Meets .failed P :=
  .inl rfl

theorem meets_done (here : P c) : Step.Meets (.done c) P :=
  .inr ⟨c, rfl, here⟩

theorem Step.Meets.andThen {x : Step} {next : JsonCursor → Step} (first : x.Meets P)
    (second : ∀ c, P c → (next c).Meets Q) : (x.andThen next).Meets Q := by
  cases first with
  | inl failed =>
      rw [failed]
      exact meets_failed
  | inr done =>
      obtain ⟨c, done, here⟩ := done
      rw [done]
      exact second c here

theorem Step.Meets.imp {x : Step} (met : x.Meets P) (weaker : ∀ c, P c → Q c) : x.Meets Q := by
  cases met with
  | inl failed => exact .inl failed
  | inr done =>
      obtain ⟨c, done, here⟩ := done
      exact .inr ⟨c, done, weaker c here⟩

theorem meets_guarded {last : Step} (ended : c.rest = [] → last.Meets P)
    (more : ∀ b r, c.rest = b :: r → (use b).Meets P) :
    (if c.atEnd then last else c.reading use).Meets P := by
  cases rest : c.rest with
  | nil =>
      rw [atEnd_nil rest]
      exact ended rest
  | cons b r =>
      rw [atEnd_cons rest, reading_cons rest]
      exact more b r rest

/-! ### Tokens -/

theorem expect_meets (p : UInt8 → Bool) (c : JsonCursor) :
    (expect p c).Meets fun c' => ∃ b, p b = true ∧ Took c [b] c' := by
  refine meets_guarded (fun _ => meets_failed) (fun b r rest => ?_)
  split
  · rename_i accepted
    exact meets_done ⟨b, accepted, took_one rest⟩
  · exact meets_failed

theorem skipOne_meets (p : UInt8 → Bool) (c : JsonCursor) :
    (skipOne p c).Meets fun c' => ∃ t, (t = [] ∨ ∃ b, p b = true ∧ t = [b]) ∧ Took c t c' := by
  refine meets_guarded (fun _ => meets_done ⟨[], .inl rfl, took_nil c⟩) (fun b r rest => ?_)
  split
  · rename_i accepted
    exact meets_done ⟨[b], .inr ⟨b, accepted, rfl⟩, took_one rest⟩
  · exact meets_done ⟨[], .inl rfl, took_nil c⟩

theorem skipWhile_meets (p : UInt8 → Bool) {rounds : Nat} (enough : c.rest.length < rounds) :
    (skipWhile p rounds c).Meets fun c' => ∃ t, (∀ b ∈ t, p b = true) ∧ Took c t c' := by
  have none : ∀ b ∈ ([] : Bytes), p b = true := fun _ member => absurd member List.not_mem_nil
  induction rounds generalizing c with
  | zero => exact absurd enough (Nat.not_lt_zero _)
  | succ rounds ih =>
      refine meets_guarded (fun _ => meets_done ⟨[], none, took_nil c⟩) (fun b r rest => ?_)
      have took := took_one rest
      have shorter : (c.skip 1).rest.length < rounds := by
        have split := took.length
        simp only [List.length_singleton] at split
        omega
      split
      · rename_i accepted
        refine (ih shorter).imp ?_
        intro c' ⟨t, all, later⟩
        exact ⟨b :: t, List.forall_mem_cons.mpr ⟨accepted, all⟩, took.cons later⟩
      · exact meets_done ⟨[], none, took_nil c⟩

theorem skipWs_meets (c : JsonCursor) :
    (skipWs c).Meets fun c' => ∃ w, Spaces w ∧ Took c w c' :=
  skipWhile_meets isSpace (by rw [rounds_eq]; exact Nat.lt_succ_self _)

theorem literal_meets (value : Bytes) (c : JsonCursor) :
    (literal value c).Meets fun c' => Took c value c' := by
  rw [literal]
  split
  · exact meets_failed
  · rename_i inside
    rw [JsonCursor.readingSlice, if_pos (Nat.le_of_not_lt inside)]
    split
    · rename_i same
      refine meets_done (took_text (r := (c.s.drop c.i).drop value.length) ?_)
      have whole := List.take_append_drop value.length (c.s.drop c.i)
      rw [same] at whole
      exact whole.symm
    · exact meets_failed

/-! ### Strings -/

theorem parseHex_meets (j : Nat) (c : JsonCursor) :
    (parseHex j c).Meets fun c' =>
      ∃ t, t.length = j ∧ (∀ b ∈ t, isHex b = true) ∧ Took c t c' := by
  induction j generalizing c with
  | zero =>
      refine meets_done ⟨[], rfl, ?_, took_nil c⟩
      exact fun _ member => absurd member List.not_mem_nil
  | succ j ih =>
      refine (expect_meets isHex c).andThen ?_
      intro c₁ ⟨b, hex, took⟩
      refine (ih c₁).imp ?_
      intro c₂ ⟨t, length, all, later⟩
      exact ⟨b :: t, by rw [List.length_cons, length], List.forall_mem_cons.mpr ⟨hex, all⟩,
        took.cons later⟩

def TookBody (c c' : JsonCursor) : Prop :=
  ∃ body, Chars body ∧ Took c (body ++ [quote]) c'

theorem tookBody_prefix {front : Bytes} (took : Took c front c')
    (chars : ∀ body, Chars body → Chars (front ++ body)) (later : TookBody c' c'') :
    TookBody c c'' := by
  obtain ⟨body, here, rest⟩ := later
  refine ⟨front ++ body, chars body here, ?_⟩
  rw [List.append_assoc]
  exact took.append rest

theorem parseStringLoop_meets {rounds : Nat} (enough : c.rest.length < rounds) :
    (parseStringLoop rounds c).Meets (TookBody c) := by
  induction rounds generalizing c with
  | zero => exact absurd enough (Nat.not_lt_zero _)
  | succ rounds ih =>
      refine meets_guarded (fun _ => meets_failed) (fun ch r rest => ?_)
      have took := took_one rest
      have split := took.length
      simp only [List.length_singleton] at split
      simp only
      split
      · rename_i same
        refine meets_done ⟨[], .nil, ?_⟩
        rw [← same]
        exact took
      split
      · exact meets_failed
      rename_i other high
      split
      · rename_i plain
        refine (ih (by omega)).imp (fun c' later => tookBody_prefix took ?_ later)
        refine fun body chars => .plain ?_ chars
        have above : 0x20 ≤ ch := UInt8.not_lt.mp high
        simp [isPlain, above, other, plain]
      rename_i slashed
      have slash : ch = backslash := not_not.mp slashed
      subst slash
      refine meets_guarded (fun _ => meets_failed) (fun mark r' rest' => ?_)
      have both := took.append (took_one rest')
      have split' := both.length
      simp only [List.length_append, List.length_singleton] at split'
      split
      · rename_i coded
        subst coded
        refine (parseHex_meets 4 _).andThen ?_
        rintro c₁ ⟨digits, four, hex, moved⟩
        have whole := both.append moved
        have split'' := moved.length
        refine (ih (by omega)).imp (fun c' later => tookBody_prefix whole ?_ later)
        exact fun body chars => .unicode four hex chars
      split
      · rename_i known
        refine (ih (by omega)).imp (fun c' later => tookBody_prefix both ?_ later)
        exact fun body chars => .escape known chars
      · exact meets_failed

theorem parseString_meets (c : JsonCursor) :
    (parseString c).Meets fun c' => ∃ t, Str t ∧ Took c t c' := by
  refine (expect_meets _ c).andThen ?_
  intro c₁ ⟨b, opening, took⟩
  rw [beq_iff_eq] at opening
  subst opening
  refine (parseStringLoop_meets (by rw [rounds_eq]; exact Nat.lt_succ_self _)).imp ?_
  intro c₂ ⟨body, chars, later⟩
  exact ⟨_, .quoted chars, took.cons later⟩

/-! ### Numbers -/

theorem parseDigits_meets (c : JsonCursor) :
    (parseDigits c).Meets fun c' => ∃ t, Digits t ∧ Took c t c' := by
  refine (expect_meets isDigit c).andThen ?_
  intro c₁ ⟨b, digit, took⟩
  refine (skipWhile_meets isDigit (by rw [rounds_eq]; exact Nat.lt_succ_self _)).imp ?_
  intro c₂ ⟨t, all, later⟩
  exact ⟨b :: t, ⟨by simp, List.forall_mem_cons.mpr ⟨digit, all⟩⟩, took.cons later⟩

theorem parseInteger_meets (c : JsonCursor) :
    (parseInteger c).Meets fun c' => ∃ t, Integer t ∧ Took c t c' := by
  refine meets_guarded (fun _ => meets_failed) (fun b r rest => ?_)
  split
  · rename_i leading
    subst leading
    have zeroed : ∃ t, Integer t ∧ Took c t (c.skip 1) := ⟨_, .zero, took_one rest⟩
    refine meets_guarded (fun _ => meets_done zeroed) (fun d r' _ => ?_)
    split
    · exact meets_failed
    · exact meets_done zeroed
  · rename_i leading
    refine (parseDigits_meets c).imp ?_
    intro c' ⟨t, digits, took⟩
    refine ⟨t, .digits digits ?_, took⟩
    have same : (t ++ c'.rest).head? = some b := by rw [← took.text, rest]; rfl
    rw [List.head?_append_of_ne_nil _ digits.1] at same
    rw [same]
    exact fun zeroed => leading (Option.some.inj zeroed)

theorem parseFraction_meets (c : JsonCursor) :
    (parseFraction c).Meets fun c' => ∃ t, Fraction t ∧ Took c t c' := by
  have none : ∃ t, Fraction t ∧ Took c t c := ⟨[], .none, took_nil c⟩
  refine meets_guarded (fun _ => meets_done none) (fun b r rest => ?_)
  split
  · rename_i dotted
    subst dotted
    refine (parseDigits_meets _).imp ?_
    intro c' ⟨t, digits, later⟩
    exact ⟨_, .digits digits, (took_one rest).cons later⟩
  · exact meets_done none

theorem parseExponent_meets (c : JsonCursor) :
    (parseExponent c).Meets fun c' => ∃ t, Exponent t ∧ Took c t c' := by
  have none : ∃ t, Exponent t ∧ Took c t c := ⟨[], .none, took_nil c⟩
  refine meets_guarded (fun _ => meets_done none) (fun b r rest => ?_)
  split
  · rename_i mark
    refine (skipOne_meets _ _).andThen ?_
    intro c₁ ⟨sign, signed, took⟩
    refine (parseDigits_meets c₁).imp ?_
    intro c₂ ⟨t, digits, later⟩
    have either : sign = [] ∨ sign = [plus] ∨ sign = [minus] := by
      cases signed with
      | inl none => exact .inl none
      | inr one =>
          obtain ⟨x, known, same⟩ := one
          rw [Bool.or_eq_true, beq_iff_eq, beq_iff_eq] at known
          rw [same]
          exact .inr (known.imp (congrArg (fun y => [y])) (congrArg (fun y => [y])))
    exact ⟨_, .digits mark either digits, (took_one rest).cons (took.append later)⟩
  · exact meets_done none

theorem parseNumber_meets (c : JsonCursor) :
    (parseNumber c).Meets fun c' => ∃ t, Number t ∧ Took c t c' := by
  refine (skipOne_meets _ c).andThen ?_
  intro c₁ ⟨sign, signed, took⟩
  refine (parseInteger_meets c₁).andThen ?_
  intro c₂ ⟨i, integer, took₂⟩
  refine (parseFraction_meets c₂).andThen ?_
  intro c₃ ⟨f, fraction, took₃⟩
  refine (parseExponent_meets c₃).andThen ?_
  intro c₄ ⟨e, exponent, took₄⟩
  split
  · have either : sign = [] ∨ sign = [minus] := by
      refine signed.imp id ?_
      intro ⟨x, known, same⟩
      rw [same, beq_iff_eq.mp known]
    exact meets_done ⟨_, .parts either integer fraction exponent,
      took.append (took₂.append (took₃.append took₄))⟩
  · exact meets_failed

/-! ### Objects and arrays -/

/-- The cursor moved over a text that ends with a closing byte, one level up. -/
structure Closed (c : JsonCursor) (t : Bytes) (c' : JsonCursor) : Prop where
  moved : c' = { c.skip t.length with depth := c.depth - 1 }
  text : c.rest = t ++ c'.rest

theorem Took.closed (took : Took c t c') (later : Closed c' t' c'') : Closed c (t ++ t') c'' := by
  refine ⟨?_, ?_⟩
  · rw [later.moved, took.moved, skip_skip, List.length_append]
    rfl
  · rw [took.text, later.text, List.append_assoc]

theorem closeOr_meets (close : UInt8) {more : JsonCursor → Step} {K : Bytes → Prop}
    (go : (more c).Meets fun c' => ∃ t, K t ∧ Closed c t c') :
    (closeOr close more c).Meets fun c' => ∃ t, (t = [close] ∨ K t) ∧ Closed c t c' := by
  have later := go.imp (Q := fun c' => ∃ t, (t = [close] ∨ K t) ∧ Closed c t c')
    fun c' ⟨t, here, closed⟩ => ⟨t, .inr here, closed⟩
  refine meets_guarded (fun _ => later) (fun b r rest => ?_)
  split
  · rename_i same
    subst same
    have took := took_one rest
    exact meets_done ⟨_, .inl rfl, ⟨rfl, took.text⟩⟩
  · exact later

theorem nextItem_meets (close : UInt8) (more : JsonCursor → Step) {K : Bytes → Prop}
    (go : ∀ c₁, c₁.depth = c.depth → c₁.rest.length < c.rest.length →
      (more c₁).Meets fun c' => ∃ t, K t ∧ Closed c₁ t c') :
    (nextItem close more c).Meets fun c' =>
      ∃ t, (∃ w t', Spaces w ∧ K t' ∧ t = comma :: (w ++ t')) ∧ Closed c t c' := by
  refine (expect_meets _ c).andThen ?_
  intro c₁ ⟨b, separator, took⟩
  rw [beq_iff_eq] at separator
  subst separator
  refine (skipWs_meets c₁).andThen ?_
  intro c₂ ⟨w, spaces, took₂⟩
  refine meets_guarded (fun _ => meets_failed) (fun b r rest => ?_)
  split
  · exact meets_failed
  have both := took.append took₂
  have shorter : c₂.rest.length < c.rest.length := by
    have split := both.length
    simp only [List.length_append, List.length_singleton] at split
    omega
  refine (go c₂ both.depth shorter).imp ?_
  intro c' ⟨t, here, closed⟩
  exact ⟨_, ⟨w, t, spaces, here, rfl⟩, both.closed closed⟩

theorem openWith_meets (first : UInt8) {inside : JsonCursor → Step} {K : Bytes → Prop}
    (go : ∀ c₁, c₁.depth = c.depth + 1 → c.depth < jsonMaxDepth →
      c₁.rest.length < c.rest.length → (inside c₁).Meets fun c' => ∃ t, K t ∧ Closed c₁ t c') :
    (openWith first inside c).Meets fun c' =>
      c.depth < jsonMaxDepth ∧ ∃ w t, Spaces w ∧ K t ∧ Took c (first :: (w ++ t)) c' := by
  refine (expect_meets _ c).andThen ?_
  intro c₁ ⟨b, opening, took⟩
  rw [beq_iff_eq] at opening
  subst opening
  simp only
  split
  · exact meets_failed
  rename_i within
  have below : c.depth < jsonMaxDepth := by
    have same : (deeper c₁).depth = c.depth + 1 := congrArg Nat.succ took.depth
    omega
  refine (skipWs_meets (deeper c₁)).andThen ?_
  intro c₂ ⟨w, spaces, took₂⟩
  have inner : c₂.depth = c.depth + 1 := by
    rw [took₂.depth, ← took.depth]
    rfl
  have split := took.length
  have split₂ := took₂.length
  simp only [List.length_singleton, rest_deeper] at split split₂
  refine (go c₂ inner below (by omega)).imp ?_
  intro c' ⟨t, here, closed⟩
  refine ⟨below, w, t, spaces, here, ?_, ?_⟩
  · rw [closed.moved, took₂.moved, took.moved]
    simp only [JsonCursor.skip, deeper, Nat.add_sub_cancel, List.length_cons, List.length_append,
      List.length_nil]
    congr 1
    omega
  · rw [took.text, ← rest_deeper c₁, took₂.text, closed.text]
    simp only [List.cons_append, List.append_assoc, List.nil_append]

def Items (kind : Kind) (close : UInt8) (d : Nat) (t : Bytes) : Prop :=
  ∃ w m w', Spaces w ∧ Derives kind d m ∧ Spaces w' ∧ t = w ++ (m ++ (w' ++ [close]))

/-- What the parse functions do with enough fuel for the text left. -/
structure SoundAt (fuel : Nat) : Prop where
  value : ∀ c : JsonCursor, 3 * c.rest.length + 2 ≤ fuel → (parseValue fuel c).Meets fun c' =>
    ∃ w v, Spaces w ∧ Derives .value (jsonMaxDepth - c.depth) v ∧ Took c (w ++ v) c'
  object : ∀ c : JsonCursor, 3 * c.rest.length + 1 ≤ fuel → (parseObject fuel c).Meets fun c' =>
    ∃ t, Derives .object (jsonMaxDepth - c.depth) t ∧ Took c t c'
  array : ∀ c : JsonCursor, 3 * c.rest.length + 1 ≤ fuel → (parseArray fuel c).Meets fun c' =>
    ∃ t, Derives .array (jsonMaxDepth - c.depth) t ∧ Took c t c'
  members : ∀ c : JsonCursor, 3 * c.rest.length + 3 ≤ fuel → (parseMembers fuel c).Meets fun c' =>
    ∃ t, Items .members rbrace (jsonMaxDepth - c.depth) t ∧ Closed c t c'
  elements : ∀ c : JsonCursor, 3 * c.rest.length + 3 ≤ fuel →
    (parseElements fuel c).Meets fun c' =>
      ∃ t, Items .elements rbracket (jsonMaxDepth - c.depth) t ∧ Closed c t c'

theorem parseValue_sound {fuel : Nat} (ih : SoundAt fuel) (c : JsonCursor)
    (enough : 3 * c.rest.length + 2 ≤ fuel + 1) : (parseValue (fuel + 1) c).Meets fun c' =>
      ∃ w v, Spaces w ∧ Derives .value (jsonMaxDepth - c.depth) v ∧ Took c (w ++ v) c' := by
  refine (skipWs_meets c).andThen ?_
  intro c₁ ⟨w, spaces, took⟩
  have split := took.length
  -- every branch leaves a value after the white space
  have finish {x : Step} {K : Bytes → Prop} (met : x.Meets fun c' => ∃ t, K t ∧ Took c₁ t c')
      (value : ∀ t, K t → Derives .value (jsonMaxDepth - c.depth) t) : x.Meets fun c' =>
      ∃ w v, Spaces w ∧ Derives .value (jsonMaxDepth - c.depth) v ∧ Took c (w ++ v) c' :=
    met.imp fun c' ⟨t, here, later⟩ => ⟨w, t, spaces, value t here, took.append later⟩
  have word (text : Bytes) (known : text ∈ [trueText, falseText, nullText]) :=
    finish ((literal_meets text c₁).imp fun c' later => ⟨text, rfl, later⟩)
      fun t (same : text = t) => .literal (same ▸ known)
  refine meets_guarded (fun _ => meets_failed) (fun b r rest => ?_)
  split
  · exact finish (parseString_meets c₁) fun t => .string
  split
  · rw [← took.depth] at finish ⊢
    exact finish (ih.object c₁ (by omega)) fun t => .ofObject
  split
  · rw [← took.depth] at finish ⊢
    exact finish (ih.array c₁ (by omega)) fun t => .ofArray
  split
  · exact word trueText (by simp)
  split
  · exact word falseText (by simp)
  split
  · exact word nullText (by simp)
  · exact finish (parseNumber_meets c₁) fun t => .number

theorem container_meets {fuel : Nat} (first close : UInt8) (kind items : Kind)
    {loop : JsonCursor → Step} (enough : 3 * c.rest.length + 1 ≤ fuel + 1)
    (go : ∀ c₁ : JsonCursor, 3 * c₁.rest.length + 3 ≤ fuel → (loop c₁).Meets fun c' =>
      ∃ t, Items items close (jsonMaxDepth - c₁.depth) t ∧ Closed c₁ t c')
    (empty : ∀ d w, Spaces w → Derives kind (d + 1) (first :: (w ++ [close])))
    (filled : ∀ d w m w', Spaces w → Derives items d m → Spaces w' →
      Derives kind (d + 1) (first :: (w ++ (m ++ (w' ++ [close]))))) :
    (openWith first (closeOr close loop) c).Meets fun c' =>
      ∃ t, Derives kind (jsonMaxDepth - c.depth) t ∧ Took c t c' := by
  refine (openWith_meets first
    (K := fun t => t = [close] ∨ Items items close (jsonMaxDepth - (c.depth + 1)) t) ?_).imp ?_
  · intro c₁ depth _ shorter
    rw [← depth]
    exact closeOr_meets close (go c₁ (by omega))
  · intro c' ⟨below, w, t, spaces, here, took⟩
    have depth : jsonMaxDepth - c.depth = jsonMaxDepth - (c.depth + 1) + 1 := by omega
    refine ⟨_, ?_, took⟩
    rw [depth]
    cases here with
    | inl bare =>
        rw [bare]
        exact empty _ w spaces
    | inr content =>
        obtain ⟨w₁, m, w', leading, derived, after, same⟩ := content
        rw [same, ← List.append_assoc w]
        exact filled _ _ m w' (spaces_append spaces leading) derived after

theorem item_meets (fuel : Nat) {d : Nat} (items : Kind) (close : UInt8)
    {loop : JsonCursor → Step} {w item : Bytes} (depth : jsonMaxDepth - c.depth = d)
    (spaces : Spaces w) (took : Took c (w ++ item) c')
    (enough : 3 * c'.rest.length + 2 ≤ fuel)
    (go : ∀ c₁ : JsonCursor, 3 * c₁.rest.length + 3 ≤ fuel → (loop c₁).Meets fun c₂ =>
      ∃ t, Items items close (jsonMaxDepth - c₁.depth) t ∧ Closed c₁ t c₂)
    (last : Derives items d item)
    (more : ∀ w₁ w₂ rest, Spaces w₁ → Spaces w₂ → Derives items d rest →
      Derives items d (item ++ (w₁ ++ (comma :: (w₂ ++ rest))))) :
    ((skipWs c').andThen (closeOr close (nextItem close loop))).Meets fun c₂ =>
      ∃ t, Items items close d t ∧ Closed c t c₂ := by
  refine (skipWs_meets c').andThen ?_
  intro c₁ ⟨w₁, spaces₁, took₁⟩
  have whole := took.append took₁
  have split₁ := took₁.length
  have next := nextItem_meets close loop (K := Items items close d) (c := c₁) ?_
  · refine (closeOr_meets close next).imp ?_
    intro c₂ ⟨t, here, closed⟩
    refine ⟨_, ?_, whole.closed closed⟩
    rw [List.append_assoc, List.append_assoc]
    cases here with
    | inl bare =>
        rw [bare]
        exact ⟨w, item, w₁, spaces, last, spaces₁, rfl⟩
    | inr further =>
        obtain ⟨w₂, t', spaces₂, ⟨w₃, m, w', leading, derived, after, same⟩, split⟩ := further
        refine ⟨w, _, w', spaces,
          more w₁ (w₂ ++ w₃) m spaces₁ (spaces_append spaces₂ leading) derived, after, ?_⟩
        rw [split, same]
        simp only [List.append_assoc, List.cons_append]
  · intro c₂ depth₂ shorter
    have same : d = jsonMaxDepth - c₂.depth := by
      rw [← depth, depth₂, whole.depth]
    rw [same]
    exact go c₂ (by omega)

theorem parseElements_sound {fuel : Nat} (ih : SoundAt fuel) (c : JsonCursor)
    (enough : 3 * c.rest.length + 3 ≤ fuel + 1) : (parseElements (fuel + 1) c).Meets fun c' =>
      ∃ t, Items .elements rbracket (jsonMaxDepth - c.depth) t ∧ Closed c t c' := by
  refine (ih.value c (by omega)).andThen ?_
  intro c₁ ⟨w, v, spaces, value, took⟩
  have split := took.length
  refine item_meets fuel .elements rbracket rfl spaces took (by omega) ih.elements
    (.element value) ?_
  exact fun w₁ w₂ rest spaces₁ spaces₂ derived => .elements value spaces₁ spaces₂ derived

theorem parseMembers_sound {fuel : Nat} (ih : SoundAt fuel) (c : JsonCursor)
    (enough : 3 * c.rest.length + 3 ≤ fuel + 1) : (parseMembers (fuel + 1) c).Meets fun c' =>
      ∃ t, Items .members rbrace (jsonMaxDepth - c.depth) t ∧ Closed c t c' := by
  refine (parseString_meets c).andThen ?_
  intro c₁ ⟨k, str, took₁⟩
  refine (skipWs_meets c₁).andThen ?_
  intro c₂ ⟨w, spaces, took₂⟩
  refine (expect_meets _ c₂).andThen ?_
  intro c₃ ⟨b, separator, took₃⟩
  rw [beq_iff_eq] at separator
  subst separator
  have name := took₁.append (took₂.append took₃)
  have split₁ := name.length
  refine (ih.value c₃ (by omega)).andThen ?_
  intro c₄ ⟨w', v, spaces', value, took₄⟩
  have split₂ := took₄.length
  have took : Took c ([] ++ (k ++ (w ++ (colon :: (w' ++ v))))) c₄ := by
    simpa only [List.append_assoc, List.singleton_append, List.nil_append] using
      name.append took₄
  rw [name.depth] at value
  refine item_meets fuel .members rbrace rfl spaces_nil took (by omega) ih.members
    (.member str spaces spaces' value) ?_
  intro w₁ w₂ rest spaces₁ spaces₂ derived
  simpa only [List.append_assoc, List.cons_append] using
    Derives.members str spaces spaces' value spaces₁ spaces₂ derived

theorem soundAt (fuel : Nat) : SoundAt fuel := by
  induction fuel with
  | zero =>
      refine ⟨?_, ?_, ?_, ?_, ?_⟩
      all_goals exact fun c enough => absurd enough (by omega)
  | succ fuel ih =>
      refine ⟨parseValue_sound ih, ?_, ?_, parseMembers_sound ih, parseElements_sound ih⟩
      · intro c enough
        exact container_meets lbrace rbrace .object .members enough ih.members
          (fun _ _ => .emptyObject) (fun _ _ _ _ => .object)
      · intro c enough
        exact container_meets lbracket rbracket .array .elements enough ih.elements
          (fun _ _ => .emptyArray) (fun _ _ _ _ => .array)

end LibreEcho.Json
