import LibreEcho.Lib.Lines

/-!
The reader of wake events in `lived.c`.

`drain_wake_events` reads one byte at a time until the socket has nothing more.
The line under construction lives in its own frame, so every call starts with an
empty one.
-/
namespace LibreEcho.Live

/-- What one `read` of a single byte can give before the socket runs dry. -/
inductive Arrival where
  | byte (b : UInt8)
  | interrupted
deriving DecidableEq, Repr

inductive ReadResult where
  | arrival (a : Arrival)
  | again
  | closed
deriving DecidableEq, Repr

abbrev WakeLine := List UInt8

def wakeLineSize : Nat := 2048
def newline : UInt8 := 10

structure Drained where
  /-- The arguments of the calls of `handle_wake_line`, in order. -/
  handled : List WakeLine
  /-- The subscription ended: the session is closed and the subscriptions dropped. -/
  closed : Bool
deriving DecidableEq, Repr

def Drained.before (lines : List WakeLine) (d : Drained) : Drained :=
  { d with handled := lines ++ d.handled }

/-- The loop of `drain_wake_events` with `line[0..used]` as its first argument. -/
def drainFrom : WakeLine → List ReadResult → Drained
  | _, [] => ⟨[], false⟩
  | _, .again :: _ => ⟨[], false⟩
  | _, .closed :: _ => ⟨[], true⟩
  | line, .arrival .interrupted :: rest => drainFrom line rest
  | line, .arrival (.byte b) :: rest =>
      if b = newline then
        (drainFrom [] rest).before (if line = [] then [] else [line])
      else if wakeLineSize ≤ line.length + 1 then drainFrom [] rest
      else drainFrom (line ++ [b]) rest

def drainWakeEvents (reads : List ReadResult) : Drained :=
  drainFrom [] reads

/-- One readable portion: the call that reads it ends with `EAGAIN`. -/
def portionReads (portion : List Arrival) : List ReadResult :=
  portion.map .arrival ++ [.again]

def drainPortions (portions : List (List Arrival)) : List WakeLine :=
  portions.flatMap fun portion => (drainWakeEvents (portionReads portion)).handled

def Arrival.bytes : Arrival → List UInt8
  | .byte b => [b]
  | .interrupted => []

def received (portion : List Arrival) : List UInt8 :=
  portion.flatMap Arrival.bytes

def wakeStream (lines : List WakeLine) : List UInt8 :=
  Lines.joined newline lines

def WakeLine.Fits (line : WakeLine) : Prop :=
  newline ∉ line ∧ line.length < wakeLineSize

def LineBoundary (bytes : List UInt8) : Prop :=
  bytes = [] ∨ bytes.getLast? = some newline

def CutsAtLineEnds (portions : List (List Arrival)) : Prop :=
  ∀ front back, portions = front ++ back → LineBoundary (received front.flatten)

def nonEmpty (lines : List WakeLine) : List WakeLine :=
  lines.filter (· ≠ [])

theorem size_nonEmpty (lines : List WakeLine) :
    Lines.size (nonEmpty lines) = Lines.size lines := by
  induction lines with
  | nil => rfl
  | cons line rest ih =>
      cases line with
      | nil =>
          rw [nonEmpty, List.filter_cons_of_neg (by simp), Lines.size_cons, ← ih, nonEmpty]
          simp
      | cons b more =>
          rw [nonEmpty, List.filter_cons_of_pos (by simp), Lines.size_cons, Lines.size_cons, ← ih,
            nonEmpty]

theorem drainFrom_newline (line : WakeLine) (rest : List ReadResult) :
    drainFrom line (.arrival (.byte newline) :: rest) =
      (drainFrom [] rest).before (if line = [] then [] else [line]) := by
  rw [drainFrom, if_pos rfl]

theorem drainFrom_byte {b : UInt8} (other : b ≠ newline) (line : WakeLine)
    (rest : List ReadResult) :
    drainFrom line (.arrival (.byte b) :: rest) =
      if wakeLineSize ≤ line.length + 1 then drainFrom [] rest
      else drainFrom (line ++ [b]) rest := by
  rw [drainFrom, if_neg other]

theorem portionReads_cons (a : Arrival) (portion : List Arrival) :
    portionReads (a :: portion) = .arrival a :: portionReads portion := rfl

theorem size_drainFrom (portion : List Arrival) (line full : WakeLine)
    (part : line.length ≤ full.length) :
    Lines.size (drainFrom line (portionReads portion)).handled ≤
      Lines.size (Lines.cutFrom newline full (received portion)).1 := by
  induction portion generalizing line full with
  | nil => exact Nat.zero_le _
  | cons a portion ih =>
      rw [portionReads_cons]
      cases a with
      | interrupted => exact ih line full part
      | byte b =>
          show _ ≤ Lines.size (Lines.cutFrom newline full (b :: received portion)).1
          by_cases ends : b = newline
          · subst ends
            have later := ih [] [] (Nat.le_refl _)
            rw [drainFrom_newline, Lines.cutFrom_sep]
            simp only [Drained.before, Lines.size_append, Lines.size_cons]
            have own : Lines.size (if line = [] then [] else [line]) ≤ line.length := by
              split <;> simp [Lines.size]
            omega
          · rw [drainFrom_byte ends, Lines.cutFrom_other _ ends]
            split
            · exact ih [] _ (Nat.zero_le _)
            · refine ih (line ++ [b]) (full ++ [b]) ?_
              simpa using part

theorem drainFrom_handled (portion : List Arrival) (line : WakeLine)
    (short : ∀ piece ∈ (Lines.cutFrom newline line (received portion)).1,
      piece.length < wakeLineSize)
    (rest : (Lines.cutFrom newline line (received portion)).2 = []) :
    (drainFrom line (portionReads portion)).handled =
      nonEmpty (Lines.cutFrom newline line (received portion)).1 := by
  induction portion generalizing line with
  | nil => rfl
  | cons a portion ih =>
      rw [portionReads_cons]
      cases a with
      | interrupted => exact ih line short rest
      | byte b =>
          have bytes : received (.byte b :: portion) = b :: received portion := rfl
          rw [bytes] at short rest ⊢
          by_cases ends : b = newline
          · subst ends
            rw [Lines.cutFrom_sep] at short rest
            rw [drainFrom_newline, Lines.cutFrom_sep]
            have later := ih [] (fun piece member => short piece (List.mem_cons_of_mem _ member))
              rest
            simp only [Drained.before, later]
            by_cases empty : line = []
            · rw [if_pos empty, nonEmpty, nonEmpty, List.filter_cons_of_neg (by simp [empty])]
              rfl
            · rw [if_neg empty, nonEmpty, nonEmpty, List.filter_cons_of_pos (by simp [empty])]
              rfl
          · rw [Lines.cutFrom_other _ ends] at short rest
            rw [drainFrom_byte ends, Lines.cutFrom_other _ ends]
            have fits : ¬wakeLineSize ≤ line.length + 1 := by
              have kept := Lines.cutFrom_keeps newline (line ++ [b]) (received portion)
              rw [rest, List.length_append, List.length_singleton] at kept
              obtain ⟨piece, member, long⟩ | long := kept
              · have := short piece member
                omega
              · exact absurd long (by simp)
            rw [if_neg fits]
            exact ih (line ++ [b]) short rest

def portionLines (portion : List Arrival) : List WakeLine :=
  (Lines.cut newline (received portion)).1

def leftOver (portion : List Arrival) : WakeLine :=
  (Lines.cut newline (received portion)).2

def WholeLines (portion : List Arrival) : Prop :=
  leftOver portion = []

theorem lineBoundary_iff (bytes : List UInt8) :
    LineBoundary bytes ↔ (Lines.cut newline bytes).2 = [] :=
  (Lines.cut_rest_eq_nil newline bytes).symm

theorem received_append (a b : List Arrival) : received (a ++ b) = received a ++ received b :=
  List.flatMap_append

theorem cutsAtLineEnds_iff (portions : List (List Arrival)) :
    CutsAtLineEnds portions ↔ ∀ portion ∈ portions, WholeLines portion := by
  induction portions with
  | nil =>
      refine ⟨fun _ _ member => absurd member List.not_mem_nil, fun _ front back split => ?_⟩
      have none : front = [] := (List.append_eq_nil_iff.mp split.symm).1
      rw [none]
      exact .inl rfl
  | cons portion portions ih =>
      constructor
      · intro cuts
        have whole : WholeLines portion := by
          refine (lineBoundary_iff _).mp ?_
          simpa using cuts [portion] portions rfl
        have later : CutsAtLineEnds portions := by
          intro front back split
          have ends := cuts (portion :: front) back (by rw [split, List.cons_append])
          rw [lineBoundary_iff, List.flatten_cons, received_append,
            Lines.cut_append newline whole] at ends
          exact (lineBoundary_iff _).mpr ends
        intro other member
        cases member with
        | head => exact whole
        | tail _ member => exact ih.mp later other member
      · intro whole front back split
        cases front with
        | nil => exact .inl rfl
        | cons first front =>
            obtain ⟨rfl, rest⟩ := List.cons.inj split
            have ends := ih.mpr (fun other member => whole other (List.mem_cons_of_mem _ member))
              front back rest
            rw [lineBoundary_iff] at ends ⊢
            rw [List.flatten_cons, received_append,
              Lines.cut_append newline (whole portion List.mem_cons_self)]
            exact ends

theorem drainWakeEvents_whole {portion : List Arrival} (whole : WholeLines portion)
    (short : ∀ line ∈ portionLines portion, line.length < wakeLineSize) :
    (drainWakeEvents (portionReads portion)).handled = nonEmpty (portionLines portion) :=
  drainFrom_handled portion [] short whole

theorem cut_received {portions : List (List Arrival)}
    (whole : ∀ portion ∈ portions, WholeLines portion) :
    Lines.cut newline (received portions.flatten) = (portions.flatMap portionLines, []) := by
  induction portions with
  | nil => rfl
  | cons portion portions ih =>
      have later := ih fun other member => whole other (List.mem_cons_of_mem _ member)
      rw [List.flatten_cons, received_append,
        Lines.cut_append newline (whole portion List.mem_cons_self), later]
      rfl

theorem drainPortions_whole {portions : List (List Arrival)}
    (whole : ∀ portion ∈ portions, WholeLines portion)
    (short : ∀ line ∈ portions.flatMap portionLines, line.length < wakeLineSize) :
    drainPortions portions = nonEmpty (portions.flatMap portionLines) := by
  induction portions with
  | nil => rfl
  | cons portion portions ih =>
      have later := ih (fun other member => whole other (List.mem_cons_of_mem _ member))
        (fun line member => short line (by simp [List.flatMap_cons, member]))
      have first := drainWakeEvents_whole (whole portion List.mem_cons_self)
        (fun line member => short line (by simp [List.flatMap_cons, member]))
      rw [drainPortions] at later
      rw [drainPortions, List.flatMap_cons, List.flatMap_cons, first, later, nonEmpty, nonEmpty,
        nonEmpty, List.filter_append]

theorem size_drainPortions (portions : List (List Arrival)) :
    Lines.size (drainPortions portions) +
        (portions.map fun portion => (leftOver portion).length).sum ≤
      (received portions.flatten).countP (· ≠ newline) := by
  induction portions with
  | nil => exact Nat.zero_le _
  | cons portion portions ih =>
      have handed := size_drainFrom portion [] [] (Nat.le_refl _)
      have arrived := Lines.size_cutFrom newline [] (received portion)
      rw [List.length_nil, Nat.zero_add] at arrived
      rw [drainPortions] at ih
      rw [drainPortions, List.flatMap_cons, Lines.size_append, List.map_cons, List.sum_cons,
        List.flatten_cons, received_append, List.countP_append, ← arrived]
      rw [drainWakeEvents, leftOver, Lines.cut]
      omega

/--
The handled lines are the non-empty lines of the stream exactly when no call
ends in the middle of a line.
-/
theorem drainWakeEvents_lines (lines : List WakeLine) (fits : ∀ line ∈ lines, line.Fits)
    (portions : List (List Arrival)) (sent : received portions.flatten = wakeStream lines) :
    drainPortions portions = nonEmpty lines ↔ CutsAtLineEnds portions := by
  have cut : Lines.cut newline (received portions.flatten) = (lines, []) := by
    rw [sent]
    exact Lines.cut_joined newline fun line member => (fits line member).1
  rw [cutsAtLineEnds_iff]
  constructor
  · intro handled
    have bound := size_drainPortions portions
    have total := Lines.size_cutFrom newline [] (received portions.flatten)
    rw [← Lines.cut, cut, List.length_nil, Nat.zero_add] at total
    rw [handled, size_nonEmpty] at bound
    have none : (portions.map fun portion => (leftOver portion).length).sum = 0 := by
      simp only at total
      omega
    intro portion member
    exact List.eq_nil_of_length_eq_zero
      (List.sum_eq_zero_iff_forall_eq_nat.mp none _ (List.mem_map.mpr ⟨portion, member, rfl⟩))
  · intro whole
    have same : portions.flatMap portionLines = lines :=
      congrArg Prod.fst ((cut_received whole).symm.trans cut)
    rw [drainPortions_whole whole, same]
    intro line member
    exact (fits line (same ▸ member)).2

/-- One line, read in one call. -/
theorem drainWakeEvents_lines_ok :
    drainPortions [[.byte 111, .byte 107, .interrupted, .byte newline]] = nonEmpty [[111, 107]] ↔
      CutsAtLineEnds [[.byte 111, .byte 107, .interrupted, .byte newline]] :=
  drainWakeEvents_lines [[111, 107]] (by simp [WakeLine.Fits, newline, wakeLineSize])
    [[.byte 111, .byte 107, .interrupted, .byte newline]] rfl

/-- The same line, cut after its first byte. -/
theorem drainWakeEvents_cutLine :
    received [[Arrival.byte 111], [.byte 107, .byte newline]].flatten = wakeStream [[111, 107]] ∧
      (∀ line ∈ [[111, 107]], WakeLine.Fits line) ∧
      drainPortions [[.byte 111], [.byte 107, .byte newline]] = [[107]] ∧
      drainPortions [[.byte 111], [.byte 107, .byte newline]] ≠ nonEmpty [[111, 107]] :=
  ⟨rfl, by simp [WakeLine.Fits, newline, wakeLineSize], by decide, by decide⟩

end LibreEcho.Live
