import LibreEcho.Lib.ChunkedBody

/-!
`unchunk` of `esphome_playback.c`: the body in chunks becomes its data, in place.

The buffer is addressed by index; an access outside it and a loop that runs out of its rounds are
outcomes of their own.
-/
namespace LibreEcho.Esphome.Playback
open ByteText (hexValue)
open ChunkedBody (cr lf colon)

abbrev Bytes := List UInt8

def espPlayBodyMax : Nat := 2 * 1024 * 1024

inductive Fault where
  | outside
  | exhausted
deriving DecidableEq, Repr

variable {α : Type}

/-- `b[i]` -/
def readByte (b : Bytes) (i : Nat) (next : UInt8 → Except Fault α) : Except Fault α :=
  match b[i]? with
  | some c => next c
  | none => .error .outside

/-- `memmove(b+dest,b+src,length)` -/
def memmove (b : Bytes) (dest src length : Nat) : Except Fault Bytes :=
  if dest + length ≤ b.length ∧ src + length ≤ b.length then
    .ok (b.take dest ++ ((b.drop src).take length ++ b.drop (dest + length)))
  else .error .outside

/-- The loop over the digits of a size: the place behind them, the size and their number. -/
def sizeLoop (b : Bytes) (n : Nat) :
    Nat → Nat → Nat → Nat → Except Fault (Option (Nat × Nat × Nat))
  | 0, _, _, _ => .error .exhausted
  | rounds + 1, in', length, digits =>
      if in' < n then
        readByte b in' fun c =>
          if c = cr then .ok (some (in', length, digits))
          else
            match hexValue c with
            | none => .ok none
            | some v =>
                if (espPlayBodyMax - v) / 16 < length ∨ 16 < digits + 1 then .ok none
                else sizeLoop b n rounds (in' + 1) (length * 16 + v) (digits + 1)
      else .ok (some (in', length, digits))

/-- The loop over one line of trailers: the place of its end, or where the buffer ends. -/
def lineLoop (b : Bytes) (n : Nat) : Nat → Nat → Except Fault (Option Nat)
  | 0, _ => .error .exhausted
  | rounds + 1, in' =>
      if in' + 2 ≤ n then
        readByte b in' fun c =>
          readByte b (in' + 1) fun d =>
            if c = cr ∧ d = lf then .ok (some in')
            else if c = 0 ∨ c = cr ∨ c = lf then .ok none
            else lineLoop b n rounds (in' + 1)
      else .ok (some in')

/-- The loop over the trailers; it tells whether they are accepted. -/
def trailersLoop (b : Bytes) (n trailers : Nat) : Nat → Nat → Except Fault Bool
  | 0, _ => .error .exhausted
  | rounds + 1, start =>
      if start + 2 ≤ n then
        match lineLoop b n (n + 1) start with
        | .error f => .error f
        | .ok none => .ok false
        | .ok (some in') =>
            if n < in' + 2 ∨ 8192 < in' - trailers then .ok false
            else if in' = start then .ok (in' + 2 = n)
            else if ((b.drop start).take (in' - start)).contains colon then
              trailersLoop b n trailers rounds (in' + 2)
            else .ok false
      else .ok false

/-- The loop over the chunks: the buffer and the length of the data in front. -/
def unchunkLoop (n : Nat) : Nat → Bytes → Nat → Nat → Except Fault (Option (Bytes × Nat))
  | 0, _, _, _ => .error .exhausted
  | rounds + 1, b, line, out =>
      if line < n then
        match sizeLoop b n (n + 1) line 0 0 with
        | .error f => .error f
        | .ok none => .ok none
        | .ok (some (in', length, digits)) =>
            if digits = 0 ∨ n < in' + 2 then .ok none
            else
              readByte b (in' + 1) fun c =>
                if c ≠ lf ∨ 16 < in' - line then .ok none
                else
                  let in' := in' + 2
                  if length = 0 then
                    match trailersLoop b n in' (n + 1) in' with
                    | .error f => .error f
                    | .ok ok => .ok (if ok then some (b, out) else none)
                  else if n - in' < length ∨ n - in' - length < 2 then .ok none
                  else
                    readByte b (in' + length) fun c =>
                      readByte b (in' + length + 1) fun d =>
                        if c ≠ cr ∨ d ≠ lf ∨ espPlayBodyMax - out < length then .ok none
                        else
                          match memmove b out in' length with
                          | .error f => .error f
                          | .ok b => unchunkLoop n rounds b (in' + length + 2) (out + length)
      else .ok none

/-- The buffer and the new `body_len`, or `none` for -1. -/
def unchunk (b : Bytes) : Except Fault (Option (Bytes × Nat)) :=
  unchunkLoop b.length (b.length + 1) b 0 0

def limits : ChunkedBody.Limits where
  digits := 16
  data := espPlayBodyMax
  trailers := 8192

end LibreEcho.Esphome.Playback

/-!
`unchunk` by index against the reader of bodies in chunks.

The data moves to the front, never over a byte that is still to be read.
-/
namespace LibreEcho.Esphome.Playback
open ByteText (hexValue)
open ChunkedBody

variable {b s : List UInt8} {n i : Nat}

/-! ### Places -/

theorem readByte_here {α : Type} {c : UInt8} (here : b.drop i = c :: s)
    (next : UInt8 → Except Fault α) : readByte b i next = next c := by
  have there : b[i]? = some c := by
    rw [← Nat.add_zero i, ← List.getElem?_drop, here]
    rfl
  rw [readByte, there]

theorem drop_next {c : UInt8} (here : b.drop i = c :: s) : b.drop (i + 1) = s := by
  rw [← List.drop_drop, here]
  rfl

theorem drop_count (here : b.drop i = s) (inside : i ≤ b.length) : i + s.length = b.length := by
  rw [← here, List.length_drop]
  omega

/-! ### The size -/

theorem sizeLoop_spec {rounds length digits : Nat} (here : b.drop i = s) (inside : i ≤ b.length)
    (enough : s.length < rounds) (short : digits ≤ 16) (room : length ≤ espPlayBodyMax) :
    sizeLoop b b.length rounds i length digits =
      .ok ((hexFrom length (s.takeWhile (· ≠ cr))).bind fun v =>
        if v ≤ espPlayBodyMax ∧ digits + (s.takeWhile (· ≠ cr)).length ≤ 16 then
          some (i + (s.takeWhile (· ≠ cr)).length, v, digits + (s.takeWhile (· ≠ cr)).length)
        else none) := by
  induction rounds generalizing s i length digits with
  | zero => exact absurd enough (Nat.not_lt_zero _)
  | succ rounds ih =>
      have count := drop_count here inside
      rw [sizeLoop]
      cases s with
      | nil =>
          rw [List.length_nil] at count
          rw [if_neg (by omega), List.takeWhile_nil]
          change _ = Except.ok (if length ≤ _ ∧ digits + 0 ≤ 16 then _ else _)
          rw [if_pos ⟨room, short⟩]
          rfl
      | cons c s =>
          rw [List.length_cons] at count enough
          rw [if_pos (by omega), readByte_here here]
          by_cases ends : c = cr
          · subst ends
            rw [if_pos rfl, List.takeWhile_cons_of_neg (by simp)]
            change _ = Except.ok (if length ≤ _ ∧ digits + 0 ≤ 16 then _ else _)
            rw [if_pos ⟨room, short⟩]
            rfl
          · rw [if_neg ends, List.takeWhile_cons_of_pos (by simpa using ends), hexFrom_cons]
            cases digit : hexValue c with
            | none => rfl
            | some v =>
                have low := ByteText.hexValue_lt digit
                dsimp only
                rw [Option.bind_some]
                split
                case isTrue bad =>
                  -- What follows only makes the number and the line longer.
                  cases value : hexFrom (length * 16 + v) (s.takeWhile (· ≠ cr)) with
                  | none => rfl
                  | some m =>
                      have := hexFrom_le value
                      rw [Option.bind_some, if_neg]
                      rw [List.length_cons, espPlayBodyMax] at *
                      omega
                case isFalse good =>
                  have last := ih (drop_next here) (by omega) (by omega)
                    (show digits + 1 ≤ 16 by omega) (show length * 16 + v ≤ espPlayBodyMax by
                      rw [espPlayBodyMax] at *
                      omega)
                  rw [last, List.length_cons]
                  simp only [Nat.add_assoc, Nat.add_comm 1]

/-! ### The trailers -/

theorem lineLoop_spec {rounds : Nat} (here : b.drop i = s) (inside : i ≤ b.length)
    (enough : s.length < rounds) :
    ∃ r, lineLoop b b.length rounds i = .ok r ∧
      match afterCrlf (s.dropWhile inLine) with
      | some _ => r = some (i + (s.takeWhile inLine).length)
      | none => ∀ j, r = some j → b.length < j + 2 := by
  induction rounds generalizing s i with
  | zero => exact absurd enough (Nat.not_lt_zero _)
  | succ rounds ih =>
      have count := drop_count here inside
      rw [lineLoop]
      rcases s with _ | ⟨c, _ | ⟨d, s⟩⟩
      · rw [List.length_nil] at count
        rw [if_neg (by omega)]
        exact ⟨_, rfl, fun j same => by cases same; omega⟩
      · rw [List.length_singleton] at count
        rw [if_neg (by omega)]
        refine ⟨_, rfl, ?_⟩
        have none : afterCrlf ([c].dropWhile inLine) = none := by
          rw [afterCrlf, if_neg]
          intro two
          have length := congrArg List.length two
          have shorter := (List.dropWhile_sublist inLine (l := [c])).length_le
          rw [List.length_take] at length
          have : crlf.length = 2 := rfl
          rw [List.length_singleton] at shorter
          omega
        rw [none]
        exact fun j same => by cases same; omega
      · rw [List.length_cons, List.length_cons] at count enough
        rw [if_pos (by omega), readByte_here here, readByte_here (drop_next here)]
        by_cases ends : c = cr ∧ d = lf
        · obtain ⟨rfl, rfl⟩ := ends
          rw [if_pos ⟨rfl, rfl⟩, List.dropWhile_cons_of_neg (by decide),
            List.takeWhile_cons_of_neg (by decide)]
          exact ⟨_, rfl, rfl⟩
        · rw [if_neg ends]
          by_cases plain : inLine c = true
          · have notStop : ¬(c = 0 ∨ c = cr ∨ c = lf) := by
              rw [inLine] at plain
              simp only [Bool.and_eq_true, bne_iff_ne] at plain
              tauto
            rw [if_neg notStop, List.dropWhile_cons_of_pos plain, List.takeWhile_cons_of_pos plain]
            obtain ⟨r, same, spec⟩ := ih (drop_next here) (by omega) (by rw [List.length_cons]; omega)
            refine ⟨r, same, ?_⟩
            rw [List.length_cons, ← Nat.add_assoc, Nat.add_right_comm]
            exact spec
          · have stop : c = 0 ∨ c = cr ∨ c = lf := by
              rw [inLine] at plain
              simp only [Bool.and_eq_true, bne_iff_ne] at plain
              tauto
            rw [if_pos stop, List.dropWhile_cons_of_neg plain]
            have none : afterCrlf (c :: d :: s) = none := by
              rw [afterCrlf, if_neg]
              intro two
              obtain ⟨first, rest⟩ := List.cons.inj two
              exact ends ⟨first, (List.cons.inj rest).1⟩
            rw [none]
            exact ⟨_, rfl, (by rintro _ ⟨⟩)⟩

theorem trailersLoop_spec {rounds trailers : Nat} (here : b.drop i = s) (inside : i ≤ b.length)
    (enough : s.length < rounds) (begun : trailers ≤ i) :
    trailersLoop b b.length trailers rounds i =
      .ok (readTrailers rounds s && decide (i - trailers + s.length ≤ 8192 + 2)) := by
  induction rounds generalizing s i with
  | zero => exact absurd enough (Nat.not_lt_zero _)
  | succ rounds ih =>
      have count := drop_count here inside
      rw [trailersLoop, readTrailers]
      by_cases there : i + 2 ≤ b.length
      · obtain ⟨r, same, spec⟩ := lineLoop_spec here inside (Nat.lt_succ_of_le (by omega : s.length ≤ b.length))
        rw [if_pos there, same]
        cases ends : afterCrlf (s.dropWhile inLine) with
        | none =>
            rw [ends] at spec
            cases r with
            | none => rfl
            | some j =>
                dsimp only
                rw [if_pos (.inl (spec j rfl)), Bool.false_and]
        | some rest =>
            rw [ends] at spec
            subst spec
            have whole : s = s.takeWhile inLine ++ (crlf ++ rest) := by
              rw [← afterCrlf_some.mp ends, List.takeWhile_append_dropWhile]
            have length := congrArg List.length whole
            have two : crlf.length = 2 := rfl
            rw [List.length_append, List.length_append, two] at length
            have behind : b.drop (i + (s.takeWhile inLine).length + 2) = rest := by
              rw [← List.drop_drop, ← List.drop_drop, here]
              nth_rewrite 2 [whole]
              rw [List.drop_left]
              rfl
            have run : ((b.drop i).take (i + (s.takeWhile inLine).length - i)) = s.takeWhile inLine := by
              rw [here, Nat.add_sub_cancel_left]
              nth_rewrite 2 [whole]
              rw [List.take_left]
            dsimp only
            split
            case isTrue far =>
              rw [decide_eq_false (by omega : ¬ i - trailers + s.length ≤ 8192 + 2), Bool.and_false]
            case isFalse near =>
              rw [not_or, Nat.not_lt, Nat.not_lt] at near
              by_cases blank : s.takeWhile inLine = []
              · rw [if_pos (by rw [blank]; rfl), if_pos blank]
                rw [blank, List.length_nil] at length near ⊢
                cases rest with
                | nil =>
                    rw [List.length_nil] at length
                    rw [decide_eq_true (by omega : i + 0 + 2 = b.length),
                      decide_eq_true (by omega : i - trailers + s.length ≤ 8192 + 2)]
                    rfl
                | cons c rest =>
                    rw [List.length_cons] at length
                    rw [decide_eq_false (by omega : ¬ i + 0 + 2 = b.length)]
                    rfl
              · have some := List.length_pos_of_ne_nil blank
                rw [if_neg (by omega), run, if_neg blank]
                split
                case isTrue named =>
                  rw [ih behind (by omega) (by omega) (by omega), named, Bool.true_and]
                  congr 2
                  rw [decide_eq_decide]
                  omega
                case isFalse anonymous =>
                  rw [Bool.eq_false_iff.mpr anonymous]
                  rfl
      · rw [if_neg there]
        have none : afterCrlf (s.dropWhile inLine) = none := by
          rw [afterCrlf, if_neg]
          intro two
          have length := congrArg List.length two
          have shorter := (List.dropWhile_sublist inLine (l := s)).length_le
          rw [List.length_take] at length
          have : crlf.length = 2 := rfl
          omega
        rw [none, Bool.false_and]

/-! ### The chunks -/

theorem sizeLine_spec (here : b.drop i = s) (inside : i ≤ b.length) :
    ∃ r, sizeLoop b b.length (b.length + 1) i 0 0 = .ok r ∧
      match sizeLine limits s with
      | some (length, rest) => ∃ j digits, r = some (j, length, digits) ∧ digits ≠ 0 ∧
          i + digits = j ∧ digits ≤ 16 ∧ b.drop j = cr :: lf :: rest ∧ length ≤ espPlayBodyMax
      | none => ∀ j length digits, r = some (j, length, digits) → j ≤ b.length ∧
          (digits = 0 ∨ b.length < j + 2 ∨ ∃ c rest, b.drop (j + 1) = c :: rest ∧ c ≠ lf) := by
  have count := drop_count here inside
  refine ⟨_, sizeLoop_spec here inside (Nat.lt_succ_of_le (by omega)) (Nat.zero_le _)
    (Nat.zero_le _), ?_⟩
  have whole : s.takeWhile (· ≠ cr) ++ s.dropWhile (· ≠ cr) = s := List.takeWhile_append_dropWhile
  have length := congrArg List.length whole
  rw [List.length_append] at length
  have behind : b.drop (i + (s.takeWhile (· ≠ cr)).length) = s.dropWhile (· ≠ cr) := by
    rw [← List.drop_drop, here]
    nth_rewrite 2 [← whole]
    rw [List.drop_left]
  have most : limits.digits = 16 := rfl
  rw [sizeLine, most]
  by_cases blank : s.takeWhile (· ≠ cr) = []
  · rw [if_pos (.inl blank), blank]
    intro j v digits same
    cases same
    exact ⟨inside, .inl rfl⟩
  by_cases long : 16 < (s.takeWhile (· ≠ cr)).length
  · rw [if_pos (.inr long)]
    intro j v digits same
    obtain ⟨m, -, same⟩ := Option.bind_eq_some_iff.mp same
    rw [if_neg (by omega)] at same
    cases same
  · rw [if_neg (not_or.mpr ⟨blank, long⟩)]
    cases value : hexFrom 0 (s.takeWhile (· ≠ cr)) with
    | none => rintro _ _ _ ⟨⟩
    | some v =>
        rw [Option.bind_some, Option.bind_some]
        by_cases large : espPlayBodyMax < v
        · rw [if_pos (show limits.data < v from large), if_neg (by omega)]
          rintro _ _ _ ⟨⟩
        · rw [if_neg (show ¬ limits.data < v from large), if_pos (by omega)]
          cases ends : afterCrlf (s.dropWhile (· ≠ cr)) with
          | some rest =>
              refine ⟨_, _, rfl, ?_, by omega, by omega, ?_, by omega⟩
              · have := List.length_pos_of_ne_nil blank
                omega
              · rw [behind, afterCrlf_some.mp ends]
                rfl
          | none =>
              intro j length' digits same
              cases same
              refine ⟨by omega, .inr ?_⟩
              -- The run ends at a carriage return or at the end of the buffer.
              cases left : s.dropWhile (· ≠ cr) with
              | nil =>
                  rw [left, List.length_nil] at length
                  exact .inl (by omega)
              | cons c rest =>
                  have stop := List.head?_dropWhile_not (fun c => decide (c ≠ cr)) s
                  rw [left] at stop
                  have first : c = cr := by simpa using stop
                  rw [left] at behind length
                  cases rest with
                  | nil =>
                      rw [List.length_singleton] at length
                      exact .inl (by omega)
                  | cons d rest =>
                      refine .inr ⟨d, rest, drop_next behind, ?_⟩
                      rintro rfl
                      rw [left, first] at ends
                      cases ends

theorem memmove_front {out j length : Nat} (front : out ≤ j) (there : j + length ≤ b.length) :
    ∃ b', memmove b out j length = .ok b' ∧ b'.length = b.length ∧
      b'.take (out + length) = b.take out ++ (b.drop j).take length ∧
      ∀ k, j + length ≤ k → b'.drop k = b.drop k := by
  have head : (b.take out).length = out := by
    rw [List.length_take]
    omega
  have middle : ((b.drop j).take length).length = length := by
    rw [List.length_take, List.length_drop]
    omega
  refine ⟨_, by rw [memmove, if_pos ⟨by omega, there⟩], ?_, ?_, fun k far => ?_⟩
  · rw [List.length_append, List.length_append, head, middle, List.length_drop]
    omega
  · rw [← List.append_assoc]
    refine List.take_left' ?_
    rw [List.length_append, head, middle]
  · obtain ⟨m, rfl⟩ := Nat.exists_eq_add_of_le (by omega : out + length ≤ k)
    have step : ∀ l : List UInt8, l.drop (out + length + m) = (l.drop (out + length)).drop m :=
      fun l => List.drop_drop.symm
    rw [step, step b, ← List.append_assoc]
    congr 1
    refine List.drop_left' ?_
    rw [List.length_append, head, middle]

theorem unchunkLoop_spec {rounds out : Nat} (here : b.drop i = s) (inside : i ≤ b.length)
    (enough : s.length < rounds) (front : out ≤ i) (room : out ≤ espPlayBodyMax) :
    ∃ r, unchunkLoop b.length rounds b i out = .ok r ∧
      match decode limits rounds (espPlayBodyMax - out) s with
      | some data => ∃ b', r = some (b', out + data.length) ∧ b'.length = b.length ∧
          b'.take (out + data.length) = b.take out ++ data
      | none => r = none := by
  induction rounds generalizing b s i out with
  | zero => exact absurd enough (Nat.not_lt_zero _)
  | succ rounds ih =>
      have count := drop_count here inside
      rw [unchunkLoop, decode]
      by_cases there : i < b.length
      · obtain ⟨r, same, spec⟩ := sizeLine_spec here inside
        rw [if_pos there, same]
        cases size : sizeLine limits s with
        | none =>
            rw [size] at spec
            rcases r with _ | ⟨j, length, digits⟩
            · exact ⟨none, rfl, rfl⟩
            · dsimp only
              obtain ⟨within, bad⟩ := spec j length digits rfl
              by_cases short : digits = 0 ∨ b.length < j + 2
              · rw [if_pos short]
                exact ⟨none, rfl, rfl⟩
              · rw [not_or] at short
                obtain ⟨c, rest, next, other⟩ := (bad.resolve_left short.1).resolve_left short.2
                rw [if_neg (not_or.mpr short), readByte_here next, if_pos (.inl other)]
                exact ⟨none, rfl, rfl⟩
        | some sized =>
            obtain ⟨length, rest⟩ := sized
            rw [size] at spec
            obtain ⟨j, digits, rfl, some, place, few, next, fits⟩ := spec
            have behind : b.drop (j + 2) = rest := by
              rw [← List.drop_drop, next]
              rfl
            have place' := drop_count next (by
              by_contra far
              rw [List.drop_eq_nil_of_le (by omega)] at next
              cases next)
            rw [List.length_cons, List.length_cons] at place'
            dsimp only
            rw [if_neg (by omega), readByte_here (drop_next next), if_neg (by
              simp only [not_or, not_not]
              exact ⟨trivial, by omega⟩), Option.bind_some]
            dsimp only
            by_cases last : length = 0
            · rw [if_pos last, if_pos last, trailersLoop_spec behind (by omega) (by omega) (Nat.le_refl _)]
              have same : trailersOk limits rest =
                  (readTrailers (b.length + 1) rest && decide (j + 2 - (j + 2) + rest.length ≤ 8192 + 2)) := by
                rw [trailersOk, readTrailers_enough (by omega : rest.length ≤ b.length + 1), Bool.and_comm,
                  Nat.sub_self, Nat.zero_add]
                rfl
              rw [← same]
              dsimp only
              cases trailersOk limits rest with
              | true => exact ⟨_, rfl, b, rfl, rfl, (List.append_nil _).symm⟩
              | false => exact ⟨none, rfl, rfl⟩
            · rw [if_neg last, if_neg last]
              by_cases missing : b.length - (j + 2) < length ∨ b.length - (j + 2) - length < 2
              · rw [if_pos missing]
                refine ⟨none, rfl, ?_⟩
                split
                case h_1 data read =>
                  split at read
                  case isTrue => cases read
                  case isFalse whole =>
                    rw [not_or] at whole
                    obtain ⟨later, ends, -⟩ := Option.bind_eq_some_iff.mp read
                    have two := congrArg List.length (afterCrlf_some.mp ends)
                    rw [List.length_drop, List.length_append] at two
                    have : crlf.length = 2 := rfl
                    omega
                case h_2 => rfl
              · rw [not_or] at missing
                obtain ⟨c, d, later, tail⟩ : ∃ c d later, rest.drop length = c :: d :: later := by
                  rcases split : rest.drop length with _ | ⟨c, _ | ⟨d, later⟩⟩
                  all_goals have size := congrArg List.length split
                  · rw [List.length_drop, List.length_nil] at size
                    omega
                  · rw [List.length_drop, List.length_singleton] at size
                    omega
                  · exact ⟨c, d, later, rfl⟩
                have ends : b.drop (j + 2 + length) = c :: d :: later := by
                  rw [← List.drop_drop, behind, tail]
                rw [if_neg (not_or.mpr missing), readByte_here ends, readByte_here (drop_next ends), tail]
                by_cases good : c = cr ∧ d = lf ∧ ¬ espPlayBodyMax - out < length
                · obtain ⟨rfl, rfl, fits⟩ := good
                  rw [if_neg (by simp only [not_or, not_not]; exact ⟨trivial, trivial, fits⟩),
                    if_neg (by omega)]
                  obtain ⟨b', moved, size', data, kept⟩ :=
                    @memmove_front b out (j + 2) length (by omega) (by omega)
                  have after : b'.drop (j + 2 + length + 2) = later := by
                    rw [kept _ (by omega), ← List.drop_drop, ends]
                    rfl
                  have fewer := congrArg List.length tail
                  rw [List.length_drop, List.length_cons, List.length_cons] at fewer
                  obtain ⟨r, same, spec⟩ := ih after (by omega) (by omega)
                    (by omega : out + length ≤ j + 2 + length + 2) (by omega)
                  rw [moved]
                  dsimp only
                  rw [size'] at same
                  have ended : afterCrlf (cr :: lf :: later) = .some later := rfl
                  rw [same, ended, Option.bind_some, Nat.sub_sub]
                  refine ⟨r, rfl, ?_⟩
                  cases read : decode limits rounds (espPlayBodyMax - (out + length)) later with
                  | none =>
                      rw [read] at spec
                      exact spec
                  | some more =>
                      rw [read] at spec
                      obtain ⟨b'', rfl, size'', all⟩ := spec
                      have taken : (rest.take length).length = length := by
                        rw [List.length_take]
                        omega
                      refine ⟨b'', ?_, size''.trans size', ?_⟩
                      · rw [List.length_append, taken, Nat.add_assoc]
                      · rw [List.length_append, taken, ← Nat.add_assoc, all, data, behind,
                          List.append_assoc]
                · have bad : c ≠ cr ∨ d ≠ lf ∨ espPlayBodyMax - out < length := by
                    by_contra none
                    simp only [not_or, not_not] at none
                    exact good none
                  rw [if_pos bad]
                  refine ⟨none, rfl, ?_⟩
                  split
                  case h_1 data read =>
                    split at read
                    case isTrue => cases read
                    case isFalse whole =>
                      obtain ⟨later', ends, -⟩ := Option.bind_eq_some_iff.mp read
                      obtain ⟨first, ends⟩ := List.cons.inj (afterCrlf_some.mp ends)
                      exact absurd ⟨first, (List.cons.inj ends).1, fun full => whole (.inr full)⟩ good
                  case h_2 => rfl
      · rw [if_neg there]
        have blank : s = [] := List.eq_nil_of_length_eq_zero (by omega)
        subst blank
        exact ⟨none, rfl, rfl⟩

/-- The bodies in chunks become their data in place, and every other text is refused; no access
is outside the buffer, and the loop ends. -/
theorem unchunk_exact (b : List UInt8) :
    (∀ body : Body, body.Ok limits → body.text = b → ∃ b',
      unchunk b = .ok (some (b', body.data.length)) ∧ b'.length = b.length ∧
        b'.take body.data.length = body.data) ∧
    ((∀ body : Body, body.Ok limits → body.text ≠ b) → unchunk b = .ok none) := by
  obtain ⟨r, same, spec⟩ := @unchunkLoop_spec b b 0 (b.length + 1) 0 rfl (Nat.zero_le _)
    (Nat.lt_succ_self _) (Nat.le_refl _) (Nat.zero_le _)
  have reader := fun data => @decode_iff limits b (b.length + 1) (Nat.le_succ _) data
  rw [Nat.sub_zero] at spec
  refine ⟨fun body ok text => ?_, fun none => ?_⟩
  · have read := (reader body.data).mpr ⟨body, ok, text, rfl⟩
    rw [show limits.data = espPlayBodyMax from rfl] at read
    rw [read] at spec
    dsimp only at spec
    rw [Nat.zero_add, List.take_zero, List.nil_append] at spec
    obtain ⟨b', rfl, size, data⟩ := spec
    exact ⟨b', same, size, data⟩
  · cases read : decode limits (b.length + 1) espPlayBodyMax b with
    | none =>
        rw [read] at spec
        rw [unchunk, same, spec]
    | some data =>
        obtain ⟨body, ok, text, -⟩ := (reader data).mp read
        exact absurd text (none body ok)

/-- `2`, `hi`, `0`, and no trailers -/
def hiBody : Body where
  chunks := [⟨[0x32], [0x68, 0x69]⟩]
  last := [0x30]
  trailers := []

theorem unchunk_exact_hi : hiBody.Ok limits ∧ ∃ b',
    unchunk hiBody.text = .ok (some (b', 2)) ∧ b'.length = hiBody.text.length ∧
      b'.take 2 = [0x68, 0x69] := by
  have ok : hiBody.Ok limits := by
    refine ⟨fun c mem => ?_, ⟨by decide, by decide, by decide, by decide⟩,
      fun line mem => absurd mem List.not_mem_nil, by decide, by decide⟩
    cases List.mem_singleton.mp mem
    exact ⟨by decide, by decide, by decide, by decide, by decide⟩
  exact ⟨ok, (unchunk_exact hiBody.text).1 hiBody ok rfl⟩

end LibreEcho.Esphome.Playback
