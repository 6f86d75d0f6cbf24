import Mathlib

/-!
`decode_score` of `wake_worker.c`: the scores of the last three blocks, and the events they make.
-/
namespace LibreEcho.Wake

def wakeSupportThreshold : ℚ := 1 / 5
def wakeLockoutSamples : Nat := 28000

structure WakeObservation where
  detectionSample : Nat
  vadScore : ℚ
  vadActive : Bool
  playbackActive : Bool
deriving DecidableEq

structure WakeSlot where
  score : ℚ
  observation : WakeObservation
deriving DecidableEq

def blankSlot : WakeSlot where
  score := 0
  observation := ⟨0, 0, false, false⟩

structure WakeEvent where
  detectionSample : Nat
  score : ℚ
  vadScore : ℚ
  playbackActive : Bool
  modelName : String
deriving DecidableEq

def WakeSlot.event (s : WakeSlot) : WakeEvent where
  detectionSample := s.observation.detectionSample
  score := s.score
  vadScore := s.observation.vadScore
  playbackActive := s.observation.playbackActive
  modelName := "alexa_v0.1"

structure WakeDecoder where
  slots : List WakeSlot
  full : slots.length = 3
  scoreCount : Nat
  lockoutUntilSample : Nat

def wakeDecoderStart : WakeDecoder where
  slots := List.replicate 3 blankSlot
  full := rfl
  scoreCount := 0
  lockoutUntilSample := 0

/-- A block with its score, and the threshold when it is scored. -/
structure ScoredBlock where
  slot : WakeSlot
  acceptThreshold : ℚ

def WakeDecoder.push (d : WakeDecoder) (s : WakeSlot) : WakeDecoder where
  slots := d.slots.tail ++ [s]
  full := by rw [List.length_append, List.length_tail, d.full]; rfl
  scoreCount := if d.scoreCount < 3 then d.scoreCount + 1 else d.scoreCount
  lockoutUntilSample := d.lockoutUntilSample

def WakeDecoder.window (d : WakeDecoder) : List WakeSlot :=
  d.slots.drop (3 - d.scoreCount)

def supports (s : WakeSlot) : Bool :=
  wakeSupportThreshold ≤ s.score

def higherSlot (best s : WakeSlot) : WakeSlot :=
  if best.score < s.score then s else best

def WakeDecoder.peak (d : WakeDecoder) : WakeSlot :=
  d.window.foldl higherSlot (d.slots.headD blankSlot)

def requiredSupport (s : WakeSlot) : Nat :=
  if s.observation.playbackActive then 1 else 2

def decodeScore (d : WakeDecoder) (block : ScoredBlock) : WakeDecoder × Option WakeEvent :=
  let d := d.push block.slot
  let support := d.window.countP supports
  let peak := d.peak
  if peak.observation.detectionSample < d.lockoutUntilSample ∨
      peak.observation.vadActive = false ∨ peak.score < block.acceptThreshold ∨
      support < requiredSupport peak then
    (d, none)
  else
    ({ d with
        lockoutUntilSample :=
          (peak.observation.detectionSample + wakeLockoutSamples) % 2 ^ 64 },
      some peak.event)

def wakeEvents : WakeDecoder → List ScoredBlock → List WakeEvent
  | _, [] => []
  | d, block :: rest =>
      (decodeScore d block).2.toList ++ wakeEvents (decodeScore d block).1 rest

/-! ### The last three blocks -/

/-- The decoder holds the last of the blocks seen, behind blanks where these are fewer. -/
structure WakeDecoder.Holds (d : WakeDecoder) (seen : List WakeSlot) : Prop where
  slots : d.slots = List.replicate (3 - d.scoreCount) blankSlot ++ seen.rtake 3
  count : d.scoreCount = min 3 seen.length

theorem WakeDecoder.Holds.window {d : WakeDecoder} {seen : List WakeSlot} (holds : d.Holds seen) :
    d.window = seen.rtake 3 := by
  rw [WakeDecoder.window, holds.slots]
  exact List.drop_left' List.length_replicate

theorem wakeDecoderStart_holds : wakeDecoderStart.Holds [] :=
  ⟨rfl, rfl⟩

theorem WakeDecoder.Holds.push {d : WakeDecoder} {seen : List WakeSlot} (holds : d.Holds seen)
    (s : WakeSlot) : (d.push s).Holds (seen ++ [s]) := by
  have slots := holds.slots
  have count := holds.count
  have length : (seen ++ [s]).length = seen.length + 1 := List.length_append
  by_cases few : d.scoreCount < 3
  · have short : seen.length < 3 := by omega
    have counted : (d.push s).scoreCount = d.scoreCount + 1 := if_pos few
    have blanks : 3 - d.scoreCount = (3 - (d.scoreCount + 1)) + 1 := by omega
    refine ⟨?_, by rw [counted, length]; omega⟩
    have before : seen.length - 3 = 0 := by omega
    have after : (seen ++ [s]).length - 3 = 0 := by omega
    rw [blanks, List.replicate_succ, List.cons_append, List.rtake, before, List.drop_zero] at slots
    rw [counted, List.rtake, after, List.drop_zero, ← List.append_assoc]
    show d.slots.tail ++ [s] = _
    rw [slots, List.tail_cons]
  · have long : 3 ≤ seen.length := by omega
    have counted : (d.push s).scoreCount = d.scoreCount := if_neg few
    have blanks : 3 - d.scoreCount = 0 := by omega
    refine ⟨?_, by rw [counted, length]; omega⟩
    have shift : seen.length + 1 - 3 = seen.length - 3 + 1 := by omega
    rw [blanks, List.replicate_zero, List.nil_append] at slots
    rw [counted, blanks, List.replicate_zero, List.nil_append, List.rtake, length, shift,
      List.drop_append_of_le_length (by omega)]
    show d.slots.tail ++ [s] = _
    rw [slots, List.rtake, List.tail_drop]

/-! ### The peak -/

/-- The first of the highest, and what stands before and behind it. -/
structure PeakOf (window : List WakeSlot) (peak : WakeSlot) (front back : List WakeSlot) : Prop where
  cut : window = front ++ peak :: back
  before : ∀ s ∈ front, s.score < peak.score
  behind : ∀ s ∈ back, s.score ≤ peak.score

theorem foldl_higherSlot (window : List WakeSlot) (best : WakeSlot) :
    (window.foldl higherSlot best = best ∧ ∀ s ∈ window, s.score ≤ best.score) ∨
      ∃ front back, best.score < (window.foldl higherSlot best).score ∧
        PeakOf window (window.foldl higherSlot best) front back := by
  induction window generalizing best with
  | nil => exact .inl ⟨rfl, nofun⟩
  | cons s window ih =>
      rw [List.foldl_cons, higherSlot]
      split
      case isTrue higher =>
        obtain ⟨same, low⟩ | ⟨front, back, above, peak⟩ := ih s
        · rw [same]
          exact .inr ⟨[], window, higher, rfl, nofun, low⟩
        · refine .inr ⟨s :: front, back, higher.trans above, congrArg (s :: ·) peak.cut, ?_,
            peak.behind⟩
          exact List.forall_mem_cons.mpr ⟨above, peak.before⟩
      case isFalse notHigher =>
        have low := not_lt.mp notHigher
        obtain ⟨same, rest⟩ | ⟨front, back, above, peak⟩ := ih best
        · exact .inl ⟨same, List.forall_mem_cons.mpr ⟨low, rest⟩⟩
        · refine .inr ⟨s :: front, back, above, congrArg (s :: ·) peak.cut, ?_, peak.behind⟩
          exact List.forall_mem_cons.mpr ⟨low.trans_lt above, peak.before⟩

theorem WakeDecoder.Holds.peak {d : WakeDecoder} {seen : List WakeSlot} (holds : d.Holds seen)
    (heard : d.peak.observation.vadActive = true) :
    ∃ front back, PeakOf (seen.rtake 3) d.peak front back := by
  have window := holds.window
  obtain ⟨same, low⟩ | ⟨front, back, -, peak⟩ := foldl_higherSlot d.window (d.slots.headD blankSlot)
  · have oldest : d.peak = d.slots.headD blankSlot := same
    have slots := holds.slots
    cases blanks : 3 - d.scoreCount with
    | zero =>
        rw [blanks, List.replicate_zero, List.nil_append, ← window] at slots
        rw [← window, oldest]
        cases held : d.slots with
        | nil =>
            have full := d.full
            rw [held] at full
            cases full
        | cons first rest =>
            rw [held] at slots low
            refine ⟨[], rest, slots.symm, nofun, fun s member => low s ?_⟩
            rw [← slots]
            exact List.mem_cons_of_mem _ member
    | succ n =>
        rw [blanks, List.replicate_succ] at slots
        rw [oldest, slots] at heard
        cases heard
  · rw [← window]
    exact ⟨front, back, peak⟩

/-! ### The events -/

/-- The event is the peak of the last three blocks, which is heard, reaches the threshold of the
last one and is supported. -/
structure Attributed (seen : List WakeSlot) (acceptThreshold : ℚ) (peak : WakeSlot)
    (front back : List WakeSlot) (e : WakeEvent) : Prop where
  isPeak : PeakOf (seen.rtake 3) peak front back
  event : e = peak.event
  heard : peak.observation.vadActive = true
  reaches : acceptThreshold ≤ peak.score
  support : requiredSupport peak ≤ (seen.rtake 3).countP supports

theorem decodeScore_holds {d : WakeDecoder} {seen : List WakeSlot} (holds : d.Holds seen)
    (block : ScoredBlock) : (decodeScore d block).1.Holds (seen ++ [block.slot]) := by
  have pushed := holds.push block.slot
  unfold decodeScore
  dsimp only
  split
  case isTrue => exact pushed
  case isFalse => exact ⟨pushed.slots, pushed.count⟩

theorem decodeScore_event {d : WakeDecoder} {seen : List WakeSlot} {block : ScoredBlock}
    {e : WakeEvent} (holds : d.Holds seen) (emits : (decodeScore d block).2 = some e) :
    (∃ peak front back,
      Attributed (seen ++ [block.slot]) block.acceptThreshold peak front back e) ∧
      d.lockoutUntilSample ≤ e.detectionSample ∧
        (decodeScore d block).1.lockoutUntilSample =
          (e.detectionSample + wakeLockoutSamples) % 2 ^ 64 := by
  have pushed := holds.push block.slot
  unfold decodeScore at emits ⊢
  dsimp only at emits ⊢
  split at emits
  case isTrue => cases emits
  case isFalse blocked =>
    cases emits
    have passes := blocked
    simp only [not_or, not_lt, Bool.not_eq_false] at passes
    obtain ⟨unlocked, heard, reaches, support⟩ := passes
    rw [if_neg blocked]
    obtain ⟨front, back, peak⟩ := pushed.peak heard
    rw [pushed.window] at support
    exact ⟨⟨_, front, back, peak, rfl, heard, reaches, support⟩, unlocked, rfl⟩

theorem decodeScore_silent {d : WakeDecoder} {block : ScoredBlock}
    (silent : (decodeScore d block).2 = none) :
    (decodeScore d block).1.lockoutUntilSample = d.lockoutUntilSample := by
  unfold decodeScore at silent ⊢
  dsimp only at silent ⊢
  split at silent
  case isTrue blocked => rw [if_pos blocked]; rfl
  case isFalse => cases silent

theorem wakeEvents_attributed {d : WakeDecoder} {before : List ScoredBlock}
    (holds : d.Holds (before.map ScoredBlock.slot)) (blocks : List ScoredBlock) :
    ∀ e ∈ wakeEvents d blocks, ∃ seen block, seen ++ [block] <+: blocks ∧ ∃ peak front back,
      Attributed ((before ++ seen ++ [block]).map ScoredBlock.slot) block.acceptThreshold peak front
        back e := by
  induction blocks generalizing d before with
  | nil => exact nofun
  | cons block rest ih =>
      intro e member
      have next := decodeScore_holds holds block
      obtain now | later := List.mem_append.mp member
      · obtain ⟨attributed, -⟩ := decodeScore_event holds (Option.mem_toList.mp now)
        refine ⟨[], block, List.prefix_append [block] rest, ?_⟩
        rwa [List.append_nil, List.map_append]
      · have held : (decodeScore d block).1.Holds ((before ++ [block]).map ScoredBlock.slot) := by
          rwa [List.map_append]
        obtain ⟨seen, last, front, attributed⟩ := ih held e later
        refine ⟨block :: seen, last, List.cons_prefix_cons.mpr ⟨rfl, front⟩, ?_⟩
        rwa [List.append_cons before block seen]

theorem wakeEvents_spaced {d : WakeDecoder} {seen : List WakeSlot} (holds : d.Holds seen)
    (blocks : List ScoredBlock)
    (room : ∀ s ∈ seen ++ blocks.map ScoredBlock.slot,
      s.observation.detectionSample + wakeLockoutSamples < 2 ^ 64) :
    (∀ e ∈ wakeEvents d blocks, d.lockoutUntilSample ≤ e.detectionSample) ∧
      (wakeEvents d blocks).Pairwise fun a b =>
        a.detectionSample + wakeLockoutSamples ≤ b.detectionSample := by
  induction blocks generalizing d seen with
  | nil => exact ⟨nofun, .nil⟩
  | cons block rest ih =>
      rw [List.map_cons, List.append_cons] at room
      obtain ⟨locked, spaced⟩ := ih (decodeScore_holds holds block) room
      rw [wakeEvents]
      cases emits : (decodeScore d block).2 with
      | none =>
          rw [decodeScore_silent emits] at locked
          exact ⟨locked, spaced⟩
      | some e =>
          obtain ⟨⟨peak, front, back, attributed⟩, unlocked, lockout⟩ :=
            decodeScore_event holds emits
          have inside : peak ∈ seen ++ [block.slot] := by
            refine List.mem_of_mem_drop (i := (seen ++ [block.slot]).length - 3) ?_
            show peak ∈ (seen ++ [block.slot]).rtake 3
            rw [attributed.isPeak.cut]
            exact List.mem_append_right _ List.mem_cons_self
          have fits := room peak (List.mem_append_left _ inside)
          have sample : e.detectionSample = peak.observation.detectionSample := by
            rw [attributed.event]
            rfl
          rw [sample, Nat.mod_eq_of_lt fits, ← sample] at lockout
          rw [lockout] at locked
          refine ⟨List.forall_mem_cons.mpr ⟨unlocked, fun later member => ?_⟩,
            List.pairwise_cons.mpr ⟨locked, spaced⟩⟩
          exact unlocked.trans ((Nat.le_add_right _ _).trans (locked later member))

/-- A block with a voice that scores `n` thousandths, with the threshold that is set. -/
def voicedBlock (detectionSample : Nat) (n : ℚ) : ScoredBlock :=
  ⟨⟨n / 1000, ⟨detectionSample, 1, true, false⟩⟩, 533 / 1000⟩

def risingBlocks : List ScoredBlock :=
  [voicedBlock 1280 300, voicedBlock 2560 600, voicedBlock 3840 900]

def LocalPeak (blocks : List WakeSlot) (e : WakeEvent) : Prop :=
  ∃ before peak after, blocks = before ++ peak :: after ∧ e = peak.event ∧
    (∀ s ∈ before.getLast?, s.score ≤ peak.score) ∧ ∀ s ∈ after.head?, s.score ≤ peak.score

end LibreEcho.Wake
