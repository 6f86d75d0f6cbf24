import LibreEcho.Json.Sound

/-!
The parser takes every text of the grammar, and nothing else.

A scanner is maximal: what it takes is fixed by the byte after it. A number is
therefore followed only where no byte after it could continue it, which holds
before white space, a comma, a closing byte and the end of the text.
-/
namespace LibreEcho.Json
open JsonGrammar

variable {c : JsonCursor} {b : UInt8} {r s t w : Bytes} {d : Nat}

@[simp] theorem done_andThen (c : JsonCursor) (next : JsonCursor → Step) :
    (Step.done c).andThen next = next c := rfl

theorem guarded_nil {last : Step} {use : UInt8 → Step} (rest : c.rest = []) :
    (if c.atEnd then last else c.reading use) = last := by
  rw [atEnd_nil rest]
  rfl

theorem guarded_cons {last : Step} {use : UInt8 → Step} (rest : c.rest = b :: r) :
    (if c.atEnd then last else c.reading use) = use b := by
  rw [atEnd_cons rest, reading_cons rest]
  rfl

theorem rest_past (rest : c.rest = t ++ r) : (c.skip t.length).rest = r := by
  rw [rest_skip, rest, List.drop_left]

theorem rest_next (rest : c.rest = b :: r) : (c.skip 1).rest = r := by
  rw [rest_skip, rest]
  rfl

/-! ### Scanners -/

def Stops (p : UInt8 → Bool) (r : Bytes) : Prop :=
  ∀ b ∈ r.head?, p b = false

theorem stops_cons {p : UInt8 → Bool} (other : p b = false) : Stops p (b :: r) := by
  intro x here
  rw [List.head?_cons, Option.mem_some_iff] at here
  rw [← here]
  exact other

theorem skipWhile_all {p : UInt8 → Bool} {rounds : Nat} (all : ∀ b ∈ t, p b = true)
    (stops : Stops p r) (rest : c.rest = t ++ r) (enough : t.length < rounds) :
    skipWhile p rounds c = .done (c.skip t.length) := by
  induction t generalizing c rounds with
  | nil =>
      obtain ⟨rounds, rfl⟩ := Nat.exists_eq_add_one_of_ne_zero (Nat.ne_of_gt enough)
      rw [skipWhile]
      cases r with
      | nil => exact guarded_nil rest
      | cons b r =>
          rw [guarded_cons rest, stops b rfl]
          rfl
  | cons b t ih =>
      obtain ⟨rounds, rfl⟩ := Nat.exists_eq_add_one_of_ne_zero (Nat.ne_of_gt (Nat.zero_lt_of_lt enough))
      obtain ⟨here, later⟩ := List.forall_mem_cons.mp all
      rw [skipWhile, guarded_cons rest, if_pos here,
        ih later (rest_next rest) (Nat.lt_of_succ_lt_succ enough), skip_skip, List.length_cons,
        Nat.add_comm]

theorem skipWs_all (spaces : Spaces w) (stops : Stops isSpace r) (rest : c.rest = w ++ r) :
    skipWs c = .done (c.skip w.length) := by
  refine skipWhile_all spaces stops rest ?_
  rw [rounds_eq, rest, List.length_append]
  omega

theorem expect_takes {p : UInt8 → Bool} (known : p b = true) (rest : c.rest = b :: r) :
    expect p c = .done (c.skip 1) := by
  rw [expect, guarded_cons rest, if_pos known]

theorem literal_takes (filled : t ≠ []) (rest : c.rest = t ++ r) :
    literal t c = .done (c.skip t.length) := by
  have inside : c.i + t.length ≤ c.s.length := by
    have split := congrArg List.length rest
    have some := List.length_pos_of_ne_nil filled
    rw [JsonCursor.rest, List.length_drop, List.length_append] at split
    omega
  have slice : (c.s.drop c.i).take t.length = t := by
    rw [JsonCursor.rest] at rest
    rw [rest, List.take_left]
  rw [literal, if_neg (Nat.not_lt.mpr inside), JsonCursor.readingSlice, if_pos inside,
    if_pos slice]

/-! ### Strings -/

theorem parseHex_takes (hex : ∀ b ∈ t, isHex b = true) (rest : c.rest = t ++ r) :
    parseHex t.length c = .done (c.skip t.length) := by
  induction t generalizing c with
  | nil => rfl
  | cons b t ih =>
      obtain ⟨here, later⟩ := List.forall_mem_cons.mp hex
      rw [List.length_cons, parseHex, expect_takes here rest]
      show parseHex t.length (c.skip 1) = _
      rw [ih later (rest_next rest), skip_skip, Nat.add_comm]

theorem parseStringLoop_takes {body : Bytes} (chars : Chars body) {rounds : Nat}
    (rest : c.rest = body ++ quote :: r) (enough : body.length < rounds) :
    parseStringLoop rounds c = .done (c.skip (body.length + 1)) := by
  induction chars generalizing c rounds with
  | nil =>
      obtain ⟨rounds, rfl⟩ := Nat.exists_eq_add_one_of_ne_zero (Nat.ne_of_gt enough)
      rw [parseStringLoop, guarded_cons rest]
      exact if_pos rfl
  | @plain b body plain _ ih =>
      obtain ⟨rounds, rfl⟩ :=
        Nat.exists_eq_add_one_of_ne_zero (Nat.ne_of_gt (Nat.zero_lt_of_lt enough))
      rw [parseStringLoop, guarded_cons rest]
      simp only [isPlain, Bool.and_eq_true, decide_eq_true_eq, bne_iff_ne] at plain
      obtain ⟨⟨above, notQuote⟩, notSlash⟩ := plain
      simp only
      rw [if_neg notQuote, if_neg (UInt8.not_lt.mpr above), if_pos notSlash,
        ih (rest_next rest) (Nat.lt_of_succ_lt_succ enough), skip_skip, List.length_cons]
      congr 2
      omega
  | @escape b body known _ ih =>
      obtain ⟨rounds, rfl⟩ :=
        Nat.exists_eq_add_one_of_ne_zero (Nat.ne_of_gt (Nat.zero_lt_of_lt enough))
      have other : b ≠ letterU := by
        rintro rfl
        exact absurd known (by decide)
      have rest₁ := rest_next rest
      rw [parseStringLoop, guarded_cons rest]
      simp only
      rw [if_neg (by decide), if_neg (by decide), if_neg (by decide), guarded_cons rest₁,
        if_neg other, if_pos known, ih (rest_next rest₁) ?_, skip_skip, skip_skip]
      · simp only [List.length_cons]
        congr 2
        omega
      · simp only [List.length_cons] at enough
        omega
  | @unicode digits body four hex _ ih =>
      rw [List.cons_append, List.cons_append, List.append_assoc] at rest
      obtain ⟨rounds, rfl⟩ :=
        Nat.exists_eq_add_one_of_ne_zero (Nat.ne_of_gt (Nat.zero_lt_of_lt enough))
      have rest₁ := rest_next rest
      have rest₂ := rest_next rest₁
      rw [parseStringLoop, guarded_cons rest]
      simp only
      rw [if_neg (by decide), if_neg (by decide), if_neg (by decide), guarded_cons rest₁,
        if_pos rfl, ← four, parseHex_takes hex rest₂]
      show parseStringLoop rounds _ = _
      simp only [List.length_cons, List.length_append] at enough ⊢
      rw [ih (rest_past rest₂) (by omega), skip_skip, skip_skip, skip_skip]
      congr 2
      omega

theorem parseString_takes (str : Str t) (rest : c.rest = t ++ r) :
    parseString c = .done (c.skip t.length) := by
  cases str with
  | @quoted body chars =>
      rw [List.cons_append, List.append_assoc] at rest
      have rest₁ := rest_next rest
      have enough : body.length < (c.skip 1).rounds := by
        rw [rounds_eq, rest₁, List.length_append]
        omega
      rw [parseString, expect_takes (by decide) rest]
      show parseStringLoop (c.skip 1).rounds (c.skip 1) = _
      rw [parseStringLoop_takes chars rest₁ enough, skip_skip]
      simp only [List.length_cons, List.length_append, List.length_nil]
      congr 2
      omega

/-! ### Numbers -/

theorem parseDigits_takes (digits : Digits t) (stops : Stops isDigit r)
    (rest : c.rest = t ++ r) : parseDigits c = .done (c.skip t.length) := by
  cases t with
  | nil => exact absurd rfl digits.1
  | cons b t =>
      obtain ⟨here, later⟩ := List.forall_mem_cons.mp digits.2
      rw [List.cons_append] at rest
      have rest₁ := rest_next rest
      rw [parseDigits, expect_takes here rest]
      show skipWhile isDigit (c.skip 1).rounds (c.skip 1) = _
      rw [skipWhile_all later stops rest₁ ?_, skip_skip, List.length_cons, Nat.add_comm]
      rw [rounds_eq, rest₁, List.length_append]
      omega

theorem parseInteger_takes (integer : Integer t) (stops : Stops isDigit r)
    (rest : c.rest = t ++ r) : parseInteger c = .done (c.skip t.length) := by
  rw [parseInteger]
  cases integer with
  | zero =>
      rw [guarded_cons rest, if_pos rfl]
      have rest₁ := rest_next rest
      cases r with
      | nil => exact guarded_nil rest₁
      | cons b r =>
          simp only
          rw [guarded_cons rest₁, stops b rfl]
          rfl
  | digits digits nonzero =>
      cases t with
      | nil => exact absurd rfl digits.1
      | cons b t =>
          rw [guarded_cons rest, if_neg (fun same => nonzero (congrArg some same))]
          exact parseDigits_takes digits stops rest

theorem skipOne_takes {p : UInt8 → Bool} (one : t = [] ∧ Stops p r ∨ ∃ b, p b = true ∧ t = [b])
    (rest : c.rest = t ++ r) : skipOne p c = .done (c.skip t.length) := by
  rw [skipOne]
  cases one with
  | inl none =>
      obtain ⟨rfl, stops⟩ := none
      cases r with
      | nil => exact guarded_nil rest
      | cons b r =>
          rw [guarded_cons rest, stops b rfl]
          rfl
  | inr some =>
      obtain ⟨b, known, rfl⟩ := some
      rw [guarded_cons rest, if_pos known]
      rfl

def isMark (b : UInt8) : Bool :=
  b == letterE || b == capitalE

theorem Stops.mono {p q : UInt8 → Bool} (stops : Stops q r) (weaker : ∀ b, p b = true → q b = true) :
    Stops p r := by
  intro b here
  rw [Bool.eq_false_iff]
  exact fun known => absurd (weaker b known) (Bool.eq_false_iff.mp (stops b here))

theorem parseFraction_takes (fraction : Fraction t)
    (stops : Stops (fun b => isDigit b || b == point) r) (rest : c.rest = t ++ r) :
    parseFraction c = .done (c.skip t.length) := by
  rw [parseFraction]
  cases fraction with
  | none =>
      cases r with
      | nil => exact guarded_nil rest
      | cons b r =>
          have other := (Bool.or_eq_false_iff.mp (stops b rfl)).2
          rw [guarded_cons rest, if_neg (beq_eq_false_iff_ne.mp other)]
          rfl
  | digits digits =>
      rw [List.cons_append] at rest
      have quiet : Stops isDigit r := stops.mono fun b known => by rw [known]; rfl
      rw [guarded_cons rest, if_pos rfl, parseDigits_takes digits quiet (rest_next rest),
        skip_skip, List.length_cons, Nat.add_comm]

theorem parseExponent_takes (exponent : Exponent t)
    (stops : Stops (fun b => isDigit b || isMark b) r) (rest : c.rest = t ++ r) :
    parseExponent c = .done (c.skip t.length) := by
  rw [parseExponent]
  cases exponent with
  | none =>
      cases r with
      | nil => exact guarded_nil rest
      | cons b r =>
          have other := (Bool.or_eq_false_iff.mp (stops b rfl)).2
          rw [isMark, Bool.or_eq_false_iff, beq_eq_false_iff_ne, beq_eq_false_iff_ne] at other
          rw [guarded_cons rest, if_neg (not_or.mpr other)]
          rfl
  | @digits mark sign s marked signed digits =>
      rw [List.cons_append, List.append_assoc] at rest
      have quiet : Stops isDigit r := stops.mono fun b known => by rw [known]; rfl
      have rest₁ := rest_next rest
      have one : sign = [] ∧ Stops (fun b => b == plus || b == minus) (s ++ r) ∨
          ∃ b, (b == plus || b == minus) = true ∧ sign = [b] := by
        rcases signed with none | up | down
        · refine .inl ⟨none, ?_⟩
          cases s with
          | nil => exact absurd rfl digits.1
          | cons b s =>
              refine stops_cons ?_
              rw [Bool.eq_false_iff]
              intro sign
              rw [Bool.or_eq_true, beq_iff_eq, beq_iff_eq] at sign
              have digit := digits.2 b List.mem_cons_self
              rcases sign with rfl | rfl
              · exact absurd digit (by decide)
              · exact absurd digit (by decide)
        · exact .inr ⟨plus, rfl, up⟩
        · exact .inr ⟨minus, rfl, down⟩
      rw [guarded_cons rest, if_pos marked, skipOne_takes one rest₁]
      show parseDigits ((c.skip 1).skip sign.length) = _
      rw [parseDigits_takes digits quiet (rest_past rest₁), skip_skip, skip_skip]
      simp only [List.length_cons, List.length_append]
      congr 2
      omega

def continues (b : UInt8) : Bool :=
  isDigit b || b == point || isMark b

theorem exponent_stops {e : Bytes} (exponent : Exponent e) (stops : Stops continues r) :
    Stops (fun b => isDigit b || b == point) (e ++ r) := by
  cases exponent with
  | none =>
      refine stops.mono fun b known => ?_
      rw [continues, known]
      rfl
  | digits marked _ _ =>
      refine stops_cons ?_
      rcases marked with rfl | rfl
      · rfl
      · rfl

theorem fraction_stops {f : Bytes} (fraction : Fraction f)
    (stops : Stops (fun b => isDigit b || b == point) r) : Stops isDigit (f ++ r) := by
  cases fraction with
  | none => exact stops.mono fun b known => by rw [known]; rfl
  | digits _ => exact stops_cons rfl

theorem parseNumber_takes (number : Number t) (stops : Stops continues r)
    (rest : c.rest = t ++ r) : parseNumber c = .done (c.skip t.length) := by
  cases number with
  | @parts sign i f e signed integer fraction exponent =>
      simp only [List.append_assoc] at rest
      obtain ⟨b, s, head, digit⟩ := integer_head integer
      have one : sign = [] ∧ Stops (· == minus) (i ++ (f ++ (e ++ r))) ∨
          ∃ b, (b == minus) = true ∧ sign = [b] := by
        cases signed with
        | inl none =>
            refine .inl ⟨none, ?_⟩
            rw [head]
            refine stops_cons (beq_eq_false_iff_ne.mpr ?_)
            rintro rfl
            exact absurd digit (by decide)
        | inr down => exact .inr ⟨minus, rfl, down⟩
      have afterE : Stops (fun b => isDigit b || isMark b) r := by
        refine stops.mono fun b known => ?_
        rw [Bool.or_eq_true] at known
        rcases known with known | known
        · rw [continues, known]
          rfl
        · rw [continues, known, Bool.or_true]
      have afterF := exponent_stops exponent stops
      have afterI := fraction_stops fraction afterF
      have rest₁ := rest_past rest
      have rest₂ := rest_past rest₁
      have rest₃ := rest_past rest₂
      rw [parseNumber]
      rw [skipOne_takes one rest]
      simp only [Step.andThen]
      rw [parseInteger_takes integer afterI rest₁]
      simp only
      rw [parseFraction_takes fraction afterF rest₂]
      simp only
      rw [parseExponent_takes exponent afterE rest₃]
      have some : 0 < i.length := by
        rw [head, List.length_cons]
        exact Nat.succ_pos _
      simp only [skip_skip, List.length_append]
      rw [if_pos (by simp only [JsonCursor.skip]; omega)]
      congr 2
      omega

/-! ### Objects and arrays -/

/-- One level up, past `k` bytes. -/
def closed (c : JsonCursor) (k : Nat) : JsonCursor :=
  { c.skip k with depth := c.depth - 1 }

theorem closeOr_last {close : UInt8} {more : JsonCursor → Step} (spaces : Spaces w)
    (solid : isSpace close = false) (rest : c.rest = w ++ close :: r) :
    (skipWs c).andThen (closeOr close more) = .done (closed c (w.length + 1)) := by
  rw [skipWs_all spaces (stops_cons solid) rest]
  show closeOr close more (c.skip w.length) = _
  rw [closeOr, guarded_cons (rest_past rest), if_pos rfl, skip_skip]
  rfl

theorem closeOr_next {close : UInt8} {more : JsonCursor → Step} {w' : Bytes} (spaces : Spaces w)
    (spaces' : Spaces w') (other : comma ≠ close) (solid : isSpace b = false) (inner : b ≠ close)
    (rest : c.rest = w ++ comma :: (w' ++ b :: s)) :
    (skipWs c).andThen (closeOr close (nextItem close more)) =
      more (c.skip (w.length + (w'.length + 1))) := by
  have rest₁ := rest_past rest
  have rest₂ := rest_next rest₁
  rw [skipWs_all spaces (stops_cons rfl) rest]
  show closeOr close (nextItem close more) (c.skip w.length) = _
  rw [closeOr, guarded_cons rest₁, if_neg other, nextItem, expect_takes (by decide) rest₁]
  show (skipWs ((c.skip w.length).skip 1)).andThen _ = _
  rw [skipWs_all spaces' (stops_cons solid) rest₂]
  show (if JsonCursor.atEnd _ then _ else _) = _
  rw [guarded_cons (rest_past rest₂), if_neg inner, skip_skip, skip_skip]
  congr 2
  omega

theorem openWith_takes {first : UInt8} {inside : JsonCursor → Step} (spaces : Spaces w)
    (below : c.depth < jsonMaxDepth) (solid : isSpace b = false)
    (rest : c.rest = first :: (w ++ b :: s)) :
    openWith first inside c = inside ((deeper (c.skip 1)).skip w.length) := by
  have rest₁ := rest_next rest
  have within : ¬jsonMaxDepth < (deeper (c.skip 1)).depth := Nat.not_lt.mpr below
  rw [openWith, expect_takes (by simp) rest, done_andThen]
  simp only
  rw [if_neg within, skipWs_all (c := deeper (c.skip 1)) spaces (stops_cons solid) rest₁,
    done_andThen]

/-- What a parse function does with a text of its kind and enough fuel. -/
def CompleteAt : Kind → Nat → Bytes → Prop
  | .value, d, v => ∀ (c : JsonCursor) (w r : Bytes) (fuel : Nat), Spaces w → Stops continues r →
      c.rest = w ++ (v ++ r) → c.depth + d ≤ jsonMaxDepth → 3 * c.rest.length + 2 ≤ fuel →
      parseValue fuel c = .done (c.skip (w.length + v.length))
  | .object, d, t => ∀ (c : JsonCursor) (r : Bytes) (fuel : Nat), c.rest = t ++ r →
      c.depth + d ≤ jsonMaxDepth → 3 * c.rest.length + 1 ≤ fuel →
      parseObject fuel c = .done (c.skip t.length)
  | .array, d, t => ∀ (c : JsonCursor) (r : Bytes) (fuel : Nat), c.rest = t ++ r →
      c.depth + d ≤ jsonMaxDepth → 3 * c.rest.length + 1 ≤ fuel →
      parseArray fuel c = .done (c.skip t.length)
  | .members, d, m => ∀ (c : JsonCursor) (w r : Bytes) (fuel : Nat), Spaces w →
      c.rest = m ++ (w ++ rbrace :: r) → c.depth + d ≤ jsonMaxDepth →
      3 * c.rest.length + 3 ≤ fuel →
      parseMembers fuel c = .done (closed c (m.length + (w.length + 1)))
  | .elements, d, m => ∀ (c : JsonCursor) (w r : Bytes) (fuel : Nat), Spaces w →
      c.rest = m ++ (w ++ rbracket :: r) → c.depth + d ≤ jsonMaxDepth →
      3 * c.rest.length + 3 ≤ fuel →
      parseElements fuel c = .done (closed c (m.length + (w.length + 1)))

theorem parseValue_at {fuel : Nat} (spaces : Spaces w) (solid : isSpace b = false)
    (rest : c.rest = w ++ b :: s) : parseValue (fuel + 1) c =
      let c := c.skip w.length
      if b = quote then parseString c
      else if b = lbrace then parseObject fuel c
      else if b = lbracket then parseArray fuel c
      else if b = letterT then literal trueText c
      else if b = letterF then literal falseText c
      else if b = letterN then literal nullText c
      else parseNumber c := by
  rw [parseValue, skipWs_all spaces (stops_cons solid) rest, done_andThen,
    guarded_cons (rest_past rest)]

theorem complete_string {v : Bytes} (str : Str v) : CompleteAt .value d v := by
  intro c w r fuel spaces _ rest _ enough
  obtain ⟨fuel, rfl⟩ : ∃ n, fuel = n + 1 := ⟨fuel - 1, by omega⟩
  have rest₁ := rest_past rest
  cases str with
  | quoted chars =>
      rw [parseValue_at spaces (by decide) rest]
      show parseString (c.skip w.length) = _
      rw [parseString_takes (.quoted chars) rest₁, skip_skip]

theorem complete_number {v : Bytes} (number : Number v) : CompleteAt .value d v := by
  intro c w r fuel spaces stops rest _ enough
  obtain ⟨fuel, rfl⟩ : ∃ n, fuel = n + 1 := ⟨fuel - 1, by omega⟩
  have rest₁ := rest_past rest
  obtain ⟨b, s, head, first⟩ := number_head number
  obtain ⟨_, _, same, solid, _⟩ := derives_value_head (.number (d := d) number)
  rw [head] at same
  cases same
  have other {x : UInt8} (outside : isDigit x = false) (notMinus : x ≠ minus) : b ≠ x := by
    rintro rfl
    rcases first with digit | sign
    · exact absurd digit (by rw [outside]; exact Bool.false_ne_true)
    · exact notMinus sign
  rw [head] at rest
  rw [parseValue_at spaces solid rest]
  simp only
  rw [if_neg (other rfl (by decide)), if_neg (other rfl (by decide)),
    if_neg (other rfl (by decide)), if_neg (other rfl (by decide)),
    if_neg (other rfl (by decide)), if_neg (other rfl (by decide)),
    parseNumber_takes number stops rest₁, skip_skip]

theorem complete_literal {v : Bytes} (known : v ∈ [trueText, falseText, nullText]) :
    CompleteAt .value d v := by
  intro c w r fuel spaces _ rest _ enough
  obtain ⟨fuel, rfl⟩ : ∃ n, fuel = n + 1 := ⟨fuel - 1, by omega⟩
  have rest₁ := rest_past rest
  simp only [List.mem_cons, List.not_mem_nil, or_false] at known
  rcases known with rfl | rfl | rfl
  · rw [parseValue_at (b := letterT) spaces (by decide) rest]
    exact literal_takes (by decide) rest₁
  · rw [parseValue_at (b := letterF) spaces (by decide) rest]
    exact literal_takes (by decide) rest₁
  · rw [parseValue_at (b := letterN) spaces (by decide) rest]
    exact literal_takes (by decide) rest₁

theorem complete_ofObject {t : Bytes} (object : Derives .object d t)
    (ih : CompleteAt .object d t) : CompleteAt .value d t := by
  intro c w r fuel spaces _ rest depth enough
  obtain ⟨fuel, rfl⟩ : ∃ n, fuel = n + 1 := ⟨fuel - 1, by omega⟩
  have rest₁ := rest_past rest
  have fits : (c.skip w.length).rest.length ≤ c.rest.length := by
    rw [rest_skip, List.length_drop]
    omega
  have same : parseValue (fuel + 1) c = parseObject fuel (c.skip w.length) := by
    cases object with
    | emptyObject _ | object _ _ _ =>
        rw [parseValue_at (b := lbrace) spaces (by decide) rest]
        rfl
  rw [same, ih (c.skip w.length) r fuel rest₁ depth (by omega), skip_skip]

theorem complete_ofArray {t : Bytes} (array : Derives .array d t)
    (ih : CompleteAt .array d t) : CompleteAt .value d t := by
  intro c w r fuel spaces _ rest depth enough
  obtain ⟨fuel, rfl⟩ : ∃ n, fuel = n + 1 := ⟨fuel - 1, by omega⟩
  have rest₁ := rest_past rest
  have fits : (c.skip w.length).rest.length ≤ c.rest.length := by
    rw [rest_skip, List.length_drop]
    omega
  have same : parseValue (fuel + 1) c = parseArray fuel (c.skip w.length) := by
    cases array with
    | emptyArray _ | array _ _ _ =>
        rw [parseValue_at (b := lbracket) spaces (by decide) rest]
        rfl
  rw [same, ih (c.skip w.length) r fuel rest₁ depth (by omega), skip_skip]

theorem container_empty {first close : UInt8} {loop : JsonCursor → Step} (spaces : Spaces w)
    (solid : isSpace close = false) (below : c.depth < jsonMaxDepth)
    (rest : c.rest = first :: (w ++ close :: r)) :
    openWith first (closeOr close loop) c = .done (c.skip (w.length + 2)) := by
  have inner : ((deeper (c.skip 1)).skip w.length).rest = close :: r :=
    rest_past (c := deeper (c.skip 1)) (rest_next rest)
  rw [openWith_takes spaces below solid rest, closeOr, guarded_cons inner, if_pos rfl]
  simp only [JsonCursor.skip, deeper, Nat.add_sub_cancel]
  congr 2
  omega

theorem container_items {first close : UInt8} {loop : JsonCursor → Step} (spaces : Spaces w)
    (solid : isSpace b = false) (other : b ≠ close) (below : c.depth < jsonMaxDepth)
    (rest : c.rest = first :: (w ++ b :: s)) :
    openWith first (closeOr close loop) c = loop ((deeper (c.skip 1)).skip w.length) := by
  have inner : ((deeper (c.skip 1)).skip w.length).rest = b :: s :=
    rest_past (c := deeper (c.skip 1)) (rest_next rest)
  rw [openWith_takes spaces below solid rest, closeOr, guarded_cons inner, if_neg other]

theorem closed_deeper (c : JsonCursor) (j k : Nat) :
    closed ((deeper (c.skip 1)).skip j) k = c.skip (1 + j + k) := by
  simp only [closed, deeper, JsonCursor.skip, Nat.add_sub_cancel, Nat.add_assoc]

theorem container_takes {first close : UInt8} {loop : JsonCursor → Step} {m w' : Bytes}
    {fuel : Nat} (spaces : Spaces w) (head : m = b :: s) (solid : isSpace b = false)
    (other : b ≠ close) (depth : c.depth + (d + 1) ≤ jsonMaxDepth)
    (enough : 3 * c.rest.length + 1 ≤ fuel + 1)
    (rest : c.rest = first :: (w ++ (m ++ (w' ++ [close]))) ++ r)
    (go : ∀ c' : JsonCursor, c'.rest = m ++ (w' ++ close :: r) → c'.depth + d ≤ jsonMaxDepth →
      3 * c'.rest.length + 3 ≤ fuel → loop c' = .done (closed c' (m.length + (w'.length + 1)))) :
    openWith first (closeOr close loop) c =
      .done (c.skip (first :: (w ++ (m ++ (w' ++ [close])))).length) := by
  have opened : c.rest = first :: (w ++ (m ++ (w' ++ close :: r))) := by
    simpa only [List.cons_append, List.append_assoc, List.nil_append] using rest
  have read : c.rest = first :: (w ++ b :: (s ++ (w' ++ close :: r))) := by
    rw [opened, head]
    rfl
  have inner : ((deeper (c.skip 1)).skip w.length).rest = m ++ (w' ++ close :: r) :=
    rest_past (c := deeper (c.skip 1)) (rest_next opened)
  have length := congrArg List.length opened
  simp only [List.length_cons, List.length_append] at length
  have fuelled : 3 * ((deeper (c.skip 1)).skip w.length).rest.length + 3 ≤ fuel := by
    rw [inner]
    simp only [List.length_cons, List.length_append]
    omega
  have within : ((deeper (c.skip 1)).skip w.length).depth + d ≤ jsonMaxDepth := by
    show c.depth + 1 + d ≤ jsonMaxDepth
    omega
  rw [container_items spaces solid other (by omega) read, go _ inner within fuelled, closed_deeper]
  simp only [List.length_cons, List.length_append, List.length_nil]
  congr 2
  omega

theorem complete_object {w m w' : Bytes} (spaces : Spaces w) (members : Derives .members d m)
    (spaces' : Spaces w') (ih : CompleteAt .members d m) :
    CompleteAt .object (d + 1) (lbrace :: (w ++ (m ++ (w' ++ [rbrace])))) := by
  intro c r fuel rest depth enough
  obtain ⟨fuel, rfl⟩ : ∃ n, fuel = n + 1 := ⟨fuel - 1, by omega⟩
  obtain ⟨s, head⟩ := derives_members_head members
  rw [parseObject]
  exact container_takes spaces head (by decide) (by decide) depth enough rest
    fun c' inner within fuelled => ih c' w' r fuel spaces' inner within fuelled

theorem complete_array {w m w' : Bytes} (spaces : Spaces w) (elements : Derives .elements d m)
    (spaces' : Spaces w') (ih : CompleteAt .elements d m) :
    CompleteAt .array (d + 1) (lbracket :: (w ++ (m ++ (w' ++ [rbracket])))) := by
  intro c r fuel rest depth enough
  obtain ⟨fuel, rfl⟩ : ∃ n, fuel = n + 1 := ⟨fuel - 1, by omega⟩
  obtain ⟨b, s, head, solid, other⟩ := derives_elements_head elements
  rw [parseArray]
  exact container_takes spaces head solid other depth enough rest
    fun c' inner within fuelled => ih c' w' r fuel spaces' inner within fuelled

theorem complete_emptyObject {w : Bytes} (spaces : Spaces w) :
    CompleteAt .object (d + 1) (lbrace :: (w ++ [rbrace])) := by
  intro c r fuel rest depth enough
  obtain ⟨fuel, rfl⟩ : ∃ n, fuel = n + 1 := ⟨fuel - 1, by omega⟩
  rw [List.cons_append, List.append_assoc] at rest
  rw [parseObject, container_empty spaces (by decide) (by omega) rest, List.length_cons,
    List.length_append]
  rfl

theorem complete_emptyArray {w : Bytes} (spaces : Spaces w) :
    CompleteAt .array (d + 1) (lbracket :: (w ++ [rbracket])) := by
  intro c r fuel rest depth enough
  obtain ⟨fuel, rfl⟩ : ∃ n, fuel = n + 1 := ⟨fuel - 1, by omega⟩
  rw [List.cons_append, List.append_assoc] at rest
  rw [parseArray, container_empty spaces (by decide) (by omega) rest, List.length_cons,
    List.length_append]
  rfl

theorem stops_spaces (spaces : Spaces w) (solid : continues b = false) :
    Stops continues (w ++ b :: s) := by
  cases w with
  | nil => exact stops_cons solid
  | cons x w =>
      have space := spaces x List.mem_cons_self
      refine stops_cons ?_
      simp only [isSpace, Bool.or_eq_true, beq_iff_eq] at space
      rcases space with ((rfl | rfl) | rfl) | rfl
      all_goals rfl

theorem parseMembers_at {k w w' v q : Bytes} {fuel : Nat} (str : Str k) (spaces : Spaces w)
    (spaces' : Spaces w') (ih : CompleteAt .value d v) (stops : Stops continues q)
    (rest : c.rest = k ++ (w ++ colon :: (w' ++ (v ++ q))))
    (depth : c.depth + d ≤ jsonMaxDepth) (enough : 3 * c.rest.length + 3 ≤ fuel + 1) :
    parseMembers (fuel + 1) c =
      (skipWs (c.skip (k.length + (w.length + (w'.length + v.length + 1))))).andThen
        (closeOr rbrace (nextItem rbrace fun c => parseMembers fuel c)) := by
  have rest₁ := rest_past rest
  have rest₂ := rest_past rest₁
  have rest₃ := rest_next rest₂
  have fuelled : 3 * (((c.skip k.length).skip w.length).skip 1).rest.length + 2 ≤ fuel := by
    have length := congrArg List.length rest
    rw [rest₃]
    simp only [List.length_cons, List.length_append] at length ⊢
    omega
  rw [parseMembers, parseString_takes str rest, done_andThen,
    skipWs_all spaces (stops_cons rfl) rest₁, done_andThen, expect_takes (by decide) rest₂,
    done_andThen, ih _ w' q fuel spaces' stops rest₃ depth fuelled, done_andThen]
  simp only [skip_skip]
  congr 3
  omega

theorem complete_member {k w w' v : Bytes} (str : Str k) (spaces : Spaces w)
    (spaces' : Spaces w') (ih : CompleteAt .value d v) :
    CompleteAt .members d (k ++ (w ++ (colon :: (w' ++ v)))) := by
  intro c w₁ r fuel spaces₁ rest depth enough
  obtain ⟨fuel, rfl⟩ : ∃ n, fuel = n + 1 := ⟨fuel - 1, by omega⟩
  simp only [List.append_assoc, List.cons_append] at rest
  rw [parseMembers_at str spaces spaces' ih (stops_spaces spaces₁ rfl) rest depth enough]
  have after : (c.skip (k.length + (w.length + (w'.length + v.length + 1)))).rest =
      w₁ ++ rbrace :: r := by
    have past := rest_past (rest_past (rest_next (rest_past (rest_past rest))))
    simp only [skip_skip] at past
    rw [← past]
    congr 2
    omega
  rw [closeOr_last spaces₁ rfl after]
  simp only [closed, List.length_append, List.length_cons, JsonCursor.skip]
  congr 2
  omega

theorem complete_members {k w w' v w₁ w₂ m : Bytes} (str : Str k) (spaces : Spaces w)
    (spaces' : Spaces w') (ih : CompleteAt .value d v) (spaces₁ : Spaces w₁)
    (spaces₂ : Spaces w₂) (more : Derives .members d m) (ih' : CompleteAt .members d m) :
    CompleteAt .members d
      (k ++ (w ++ (colon :: (w' ++ (v ++ (w₁ ++ (comma :: (w₂ ++ m)))))))) := by
  intro c w₃ r fuel spaces₃ rest depth enough
  obtain ⟨fuel, rfl⟩ : ∃ n, fuel = n + 1 := ⟨fuel - 1, by omega⟩
  simp only [List.append_assoc, List.cons_append] at rest
  rw [parseMembers_at str spaces spaces' ih (stops_spaces spaces₁ rfl) rest depth enough]
  have after : (c.skip (k.length + (w.length + (w'.length + v.length + 1)))).rest =
      w₁ ++ comma :: (w₂ ++ (m ++ (w₃ ++ rbrace :: r))) := by
    have past := rest_past (rest_past (rest_next (rest_past (rest_past rest))))
    simp only [skip_skip] at past
    rw [← past]
    congr 2
    omega
  obtain ⟨s, head⟩ := derives_members_head more
  have next : (c.skip (k.length + (w.length + (w'.length + v.length + 1)))).rest =
      w₁ ++ comma :: (w₂ ++ quote :: (s ++ (w₃ ++ rbrace :: r))) := by
    rw [after, head]
    rfl
  rw [closeOr_next spaces₁ spaces₂ (by decide) (by decide) (by decide) next, skip_skip]
  have inner : (c.skip (k.length + (w.length + (w'.length + v.length + 1)) +
      (w₁.length + (w₂.length + 1)))).rest = m ++ (w₃ ++ rbrace :: r) := by
    have past := rest_past (rest_next (rest_past after))
    simp only [skip_skip] at past
    rw [← past]
    congr 2
    omega
  have fuelled := congrArg List.length rest
  simp only [List.length_append, List.length_cons] at fuelled
  rw [ih' _ w₃ r fuel spaces₃ inner depth ?_]
  · simp only [closed, List.length_append, List.length_cons, JsonCursor.skip]
    congr 2
    omega
  · rw [rest_skip, List.length_drop]
    omega

theorem complete_element {v : Bytes} (ih : CompleteAt .value d v) :
    CompleteAt .elements d v := by
  intro c w r fuel spaces rest depth enough
  obtain ⟨fuel, rfl⟩ : ∃ n, fuel = n + 1 := ⟨fuel - 1, by omega⟩
  rw [parseElements, ih c [] (w ++ rbracket :: r) fuel spaces_nil (stops_spaces spaces rfl) rest
    depth (by omega), done_andThen]
  have after : (c.skip (0 + v.length)).rest = w ++ rbracket :: r := by
    rw [Nat.zero_add]
    exact rest_past rest
  rw [List.length_nil, closeOr_last spaces (by decide) after]
  simp only [closed, JsonCursor.skip, Nat.zero_add, Nat.add_assoc]

theorem complete_elements {v w₁ w₂ m : Bytes} (ih : CompleteAt .value d v)
    (spaces₁ : Spaces w₁) (spaces₂ : Spaces w₂) (more : Derives .elements d m)
    (ih' : CompleteAt .elements d m) :
    CompleteAt .elements d (v ++ (w₁ ++ (comma :: (w₂ ++ m)))) := by
  intro c w₃ r fuel spaces₃ rest depth enough
  obtain ⟨fuel, rfl⟩ : ∃ n, fuel = n + 1 := ⟨fuel - 1, by omega⟩
  simp only [List.append_assoc, List.cons_append] at rest
  rw [parseElements, ih c [] _ fuel spaces_nil (stops_spaces spaces₁ rfl) rest depth (by omega),
    done_andThen, List.length_nil, Nat.zero_add]
  have after := rest_past rest
  obtain ⟨b, s, head, solid, other⟩ := derives_elements_head more
  have next : (c.skip v.length).rest =
      w₁ ++ comma :: (w₂ ++ b :: (s ++ (w₃ ++ rbracket :: r))) := by
    rw [after, head]
    rfl
  rw [closeOr_next spaces₁ spaces₂ (by decide) solid other next, skip_skip]
  have inner : (c.skip (v.length + (w₁.length + (w₂.length + 1)))).rest =
      m ++ (w₃ ++ rbracket :: r) := by
    have past := rest_past (rest_next (rest_past after))
    simp only [skip_skip] at past
    rw [← past]
    congr 2
    omega
  have fuelled := congrArg List.length rest
  simp only [List.length_append, List.length_cons] at fuelled
  rw [ih' _ w₃ r fuel spaces₃ inner depth ?_]
  · simp only [closed, List.length_append, List.length_cons, JsonCursor.skip]
    congr 2
    omega
  · rw [rest_skip, List.length_drop]
    omega

theorem derives_complete {kind : Kind} (derived : Derives kind d t) : CompleteAt kind d t := by
  induction derived with
  | string str => exact complete_string str
  | number number => exact complete_number number
  | literal known => exact complete_literal known
  | ofObject object ih => exact complete_ofObject object ih
  | ofArray array ih => exact complete_ofArray array ih
  | emptyObject spaces => exact complete_emptyObject spaces
  | object spaces members spaces' ih => exact complete_object spaces members spaces' ih
  | emptyArray spaces => exact complete_emptyArray spaces
  | array spaces elements spaces' ih => exact complete_array spaces elements spaces' ih
  | member str spaces spaces' _ ih => exact complete_member str spaces spaces' ih
  | members str spaces spaces' _ spaces₁ spaces₂ more ih ih' =>
      exact complete_members str spaces spaces' ih spaces₁ spaces₂ more ih'
  | element _ ih => exact complete_element ih
  | elements _ spaces₁ spaces₂ more ih ih' => exact complete_elements ih spaces₁ spaces₂ more ih'

/-! ### The whole text -/

theorem rest_start (s : Bytes) : (JsonCursor.start s).rest = s := rfl

theorem parseWhole_sound {fuel : Nat} (enough : parseFuel s.length ≤ fuel) :
    (parseWhole fuel s).Meets fun _ => ObjectText jsonMaxDepth s := by
  rw [parseFuel] at enough
  refine (skipWs_meets _).andThen ?_
  intro c₁ ⟨w, spaces, took₁⟩
  have left := took₁.length
  rw [rest_start] at left
  refine ((soundAt fuel).object c₁ (by omega)).andThen ?_
  intro c₂ ⟨t, object, took₂⟩
  refine (skipWs_meets c₂).andThen ?_
  intro c₃ ⟨w', spaces', took₃⟩
  split
  · rename_i whole
    refine meets_done ⟨w, t, w', spaces, ?_, spaces', ?_⟩
    · rw [took₁.depth] at object
      exact object
    · have ended : c₃.rest = [] := List.drop_eq_nil_of_le (Nat.le_of_eq whole.symm)
      have text := (took₁.append (took₂.append took₃)).text
      rw [ended, List.append_nil] at text
      exact text
  · exact meets_failed

theorem parseWhole_complete {fuel : Nat} (enough : parseFuel s.length ≤ fuel)
    (text : ObjectText jsonMaxDepth s) : ∃ c, parseWhole fuel s = .done c := by
  obtain ⟨w, object, w', spaces, derived, spaces', same⟩ := text
  have rest : (JsonCursor.start s).rest = w ++ (object ++ w') := same
  have braced : ∃ t, object = lbrace :: t := by
    cases derived with
    | emptyObject _ | object _ _ _ => exact ⟨_, rfl⟩
  obtain ⟨t, head⟩ := braced
  have stops : Stops isSpace (object ++ w') := by
    rw [head]
    exact stops_cons (by decide)
  have rest₁ := rest_past rest
  have rest₂ := rest_past rest₁
  have whole := congrArg List.length same
  simp only [List.length_append] at whole
  rw [parseFuel] at enough
  have fuelled : 3 * ((JsonCursor.start s).skip w.length).rest.length + 1 ≤ fuel := by
    rw [rest₁, List.length_append]
    omega
  have taken := derives_complete derived _ w' fuel rest₁ (Nat.le_of_eq (Nat.zero_add _)) fuelled
  have tail : (((JsonCursor.start s).skip w.length).skip object.length).rest = w' ++ [] := by
    rw [rest₂, List.append_nil]
  refine ⟨(((JsonCursor.start s).skip w.length).skip object.length).skip w'.length, ?_⟩
  rw [parseWhole, skipWs_all spaces stops rest, done_andThen, taken, done_andThen,
    skipWs_all spaces' (fun _ here => absurd here (by simp)) tail, done_andThen]
  refine if_pos ?_
  simp only [JsonCursor.skip, JsonCursor.start]
  omega

/--
With enough fuel the run returns: no read past the end, no loop left unfinished.
It returns 1 exactly for an object of the grammar, nested at most 64 deep.
-/
theorem jsonValidObject_iff (s : Bytes) (more : Nat) :
    ∃ accepted, jsonValidObject (parseFuel s.length + more) s = .ok accepted ∧
      (accepted = true ↔ ObjectText jsonMaxDepth s) := by
  have enough := Nat.le_add_right (parseFuel s.length) more
  rw [jsonValidObject]
  cases parseWhole_sound enough with
  | inl failed =>
      refine ⟨false, by rw [failed]; rfl, fun h => absurd h Bool.false_ne_true, fun text => ?_⟩
      obtain ⟨c, done⟩ := parseWhole_complete enough text
      rw [failed] at done
      exact absurd done (by simp)
  | inr done =>
      obtain ⟨c, done, text⟩ := done
      exact ⟨true, by rw [done]; rfl, fun _ => text, fun _ => rfl⟩

/-- A trailing comma is refused. -/
example : jsonValidObject (parseFuel 8)
    [lbrace, quote, quote, colon, zero, comma, 0x20, rbrace] = .ok false := by
  decide

end LibreEcho.Json
