import LibreEcho.Lib.LittleEndian
import LibreEcho.Lib.RingBuffer
import LibreEcho.Lib.Runs
import LibreEcho.Voice.Pipeline
import Mathlib

/-!
The audio that `capture_worker` of `voice_pipeline.c` writes to the recogniser in one turn: first
from the ring of captured samples, then from the frames as they come.

The socket does not block, so a write may take a part of its buffer and the next one nothing. Sample
numbers are natural numbers: a 64-bit counter at 16 kHz does not wrap.
-/
namespace LibreEcho.Voice.Stt
open RingBuffer (Ring Retains)

/-! ### Writing to the socket -/

inductive Errno where
  | again
  | pipe
  | reset
  | other
deriving DecidableEq, Repr

/-- What `write` answers: some bytes taken, one more than `more` or all that is left, or an error. -/
inductive WriteAnswer where
  | took (more : Nat)
  | interrupted
  | failed (errno : Errno)
deriving DecidableEq, Repr

structure SttWritten where
  failed : Option Errno
  bytes : Bytes
  answers : List WriteAnswer

/-- `write_all`; behind the last answer the socket is full. -/
def writeAll : List WriteAnswer → Bytes → SttWritten
  | answers, [] => ⟨none, [], answers⟩
  | [], _ :: _ => ⟨some .again, [], []⟩
  | .took more :: answers, b :: rest =>
      let later := writeAll answers (rest.drop more)
      { later with bytes := b :: rest.take more ++ later.bytes }
  | .interrupted :: answers, b :: rest => writeAll answers (b :: rest)
  | .failed errno :: answers, _ :: _ => ⟨some errno, [], answers⟩

/-- How many of `size` bytes a `write_all` gets taken. -/
def accepted : List WriteAnswer → Nat → Nat
  | _, 0 => 0
  | [], _ + 1 => 0
  | .took more :: answers, size + 1 => min (more + 1) (size + 1) + accepted answers (size - more)
  | .interrupted :: answers, size + 1 => accepted answers (size + 1)
  | .failed _ :: _, _ + 1 => 0

def sampleBytes (samples : List Int16) : Bytes :=
  LittleEndian.putAll 2 (samples.map fun sample => sample.toUInt16.toNat)

/-! ### The ring -/

def voiceStreamMaxSamples : Nat := 1280

structure PcmFrame where
  firstSample : Nat
  samples : List Int16
  some : samples ≠ []
  limit : samples.length ≤ voiceStreamMaxSamples

instance : NeZero pcmRingSamples := ⟨by decide⟩

abbrev PcmRing : Type :=
  Ring Int16 pcmRingSamples

def pcmRingStart : PcmRing where
  slots := fun _ => 0
  first := 0
  count := 0
  fits := Nat.zero_le _

/-- `ring_append` -/
def ringAppend (ring : PcmRing) (frame : PcmFrame) : PcmRing :=
  let ring :=
    if ring.count = 0 ∨ frame.firstSample ≠ ring.first + ring.count then
      ring.primeAt frame.firstSample
    else ring
  ring.append frame.samples

def ringBufferSamples : Nat := 1024

/-- The loop of `ring_write_from`. -/
def ringWriteLoop (ring : PcmRing) : Nat → Nat → List WriteAnswer → SttWritten
  | 0, _, answers => ⟨none, [], answers⟩
  | rounds + 1, firstSample, answers =>
      if firstSample < ring.stop then
        let count := min (ring.stop - firstSample) ringBufferSamples
        let wrote := writeAll answers (sampleBytes (ring.slice firstSample count))
        match wrote.failed with
        | some _ => wrote
        | none =>
            let later := ringWriteLoop ring rounds (firstSample + count) wrote.answers
            { later with bytes := wrote.bytes ++ later.bytes }
      else ⟨none, [], answers⟩

/-- `ring_write_from`; every round takes a sample at least. -/
def ringWriteFrom (ring : PcmRing) (firstSample : Nat) (answers : List WriteAnswer) : SttWritten :=
  ringWriteLoop ring (ring.count + 1) (max firstSample ring.first) answers

/-! ### A turn -/

/-- The recogniser's socket in a turn, and what it has taken. -/
structure SttTurn where
  detectionSample : Nat
  sttFd : Bool
  bytes : Bytes
  answers : List WriteAnswer

/-- `start_recognition` behind its `subscribe`. -/
def startRecognition (ring : PcmRing) (detectionSample : Nat) (answers : List WriteAnswer) :
    SttTurn :=
  let wrote := ringWriteFrom ring detectionSample answers
  ⟨detectionSample, wrote.failed.isNone, wrote.bytes, wrote.answers⟩

def closes : Option Errno → Bool
  | some .other => true
  | _ => false

def PcmFrame.part (frame : PcmFrame) (detectionSample : Nat) : List Int16 :=
  let offset :=
    if frame.firstSample < detectionSample then detectionSample - frame.firstSample else 0
  frame.samples.drop offset

/-- A frame of `capture_worker`, behind `ring_append`. -/
def SttTurn.feed (t : SttTurn) (frame : PcmFrame) : SttTurn :=
  if t.sttFd = true ∧ t.detectionSample < frame.firstSample + frame.samples.length then
    let part := frame.part t.detectionSample
    if part = [] then t
    else
      let wrote := writeAll t.answers (sampleBytes part)
      { t with
        sttFd := !closes wrote.failed
        bytes := t.bytes ++ wrote.bytes
        answers := wrote.answers }
  else t

/-! ### What a write takes -/

theorem writeAll_bytes (answers : List WriteAnswer) (buffer : Bytes) :
    (writeAll answers buffer).bytes = buffer.take (accepted answers buffer.length) ∧
      ((writeAll answers buffer).failed = none → (writeAll answers buffer).bytes = buffer) := by
  induction answers generalizing buffer with
  | nil =>
      cases buffer with
      | nil => exact ⟨rfl, fun _ => rfl⟩
      | cons b rest => exact ⟨rfl, nofun⟩
  | cons answer answers ih =>
      cases buffer with
      | nil => exact ⟨rfl, fun _ => rfl⟩
      | cons b rest =>
          cases answer with
          | took more =>
              obtain ⟨taken, whole⟩ := ih (rest.drop more)
              rw [writeAll, List.length_cons, accepted]
              refine ⟨?_, fun ok => ?_⟩
              · dsimp only
                rw [taken, List.length_drop]
                by_cases inside : more ≤ rest.length
                · rw [Nat.min_eq_left (Nat.succ_le_succ inside), Nat.succ_add, List.take_succ_cons,
                    List.take_add, List.cons_append]
                · have none : rest.length - more = 0 := by omega
                  have zero : accepted answers 0 = 0 := by rw [accepted]
                  rw [none, zero, List.take_zero, List.append_nil, Nat.add_zero,
                    Nat.min_eq_right (by omega), List.take_succ_cons, List.take_length,
                    List.take_of_length_le (by omega)]
              · dsimp only at ok ⊢
                rw [whole ok, List.cons_append, List.take_append_drop]
          | interrupted => exact ih (b :: rest)
          | failed errno => exact ⟨rfl, nofun⟩

theorem sampleBytes_append (front back : List Int16) :
    sampleBytes (front ++ back) = sampleBytes front ++ sampleBytes back := by
  rw [sampleBytes, List.map_append, LittleEndian.putAll, List.flatMap_append]
  rfl

theorem sampleBytes_length (samples : List Int16) :
    (sampleBytes samples).length = 2 * samples.length := by
  rw [sampleBytes, LittleEndian.putAll_length, List.length_map, Nat.mul_comm]

theorem sampleBytes_take (samples : List Int16) (n : Nat) :
    (sampleBytes samples).take (2 * n) = sampleBytes (samples.take n) := by
  by_cases inside : n ≤ samples.length
  · have cut : sampleBytes samples = sampleBytes (samples.take n) ++ sampleBytes (samples.drop n) := by
      rw [← sampleBytes_append, List.take_append_drop]
    have length : (sampleBytes (samples.take n)).length = 2 * n := by
      rw [sampleBytes_length, List.length_take, Nat.min_eq_left inside]
    rw [cut, List.take_left' length]
  · have long : (sampleBytes samples).length ≤ 2 * n := by
      rw [sampleBytes_length]
      omega
    rw [List.take_of_length_le long, List.take_of_length_le (by omega)]

/-! ### The ring -/

/-- No write of the ring stops behind an odd number of bytes. -/
def RingEven (ring : PcmRing) : Nat → Nat → List WriteAnswer → Prop
  | 0, _, _ => True
  | rounds + 1, firstSample, answers =>
      firstSample < ring.stop →
        let count := min (ring.stop - firstSample) ringBufferSamples
        accepted answers (2 * count) % 2 = 0 ∧
          RingEven ring rounds (firstSample + count)
            (writeAll answers (sampleBytes (ring.slice firstSample count))).answers

theorem ringWriteLoop_spec {ring : PcmRing} {rounds firstSample : Nat} {answers : List WriteAnswer}
    (enough : ring.stop - firstSample < rounds) (even : RingEven ring rounds firstSample answers) :
    ∃ look, (ringWriteLoop ring rounds firstSample answers).bytes = sampleBytes look ∧
      look <+: ring.slice firstSample (ring.stop - firstSample) ∧
      ((ringWriteLoop ring rounds firstSample answers).failed = none →
        look = ring.slice firstSample (ring.stop - firstSample)) := by
  induction rounds generalizing firstSample answers with
  | zero => exact absurd enough (Nat.not_lt_zero _)
  | succ rounds ih =>
      rw [ringWriteLoop]
      split
      case isFalse past =>
        have none : ring.stop - firstSample = 0 := by omega
        rw [none]
        exact ⟨[], rfl, List.nil_prefix, fun _ => rfl⟩
      case isTrue inside =>
        have counted : min (ring.stop - firstSample) ringBufferSamples ≤ ring.stop - firstSample :=
          Nat.min_le_left _ _
        have some : 0 < min (ring.stop - firstSample) ringBufferSamples :=
          Nat.lt_min.mpr ⟨Nat.sub_pos_of_lt inside, by decide⟩
        obtain ⟨half, even⟩ := even inside
        dsimp only at half even ⊢
        generalize min (ring.stop - firstSample) ringBufferSamples = count at *
        obtain ⟨taken, whole⟩ := writeAll_bytes answers (sampleBytes (ring.slice firstSample count))
        have cut : ring.slice firstSample (ring.stop - firstSample) =
            ring.slice firstSample count ++
              ring.slice (firstSample + count) (ring.stop - (firstSample + count)) := by
          rw [← Ring.slice_add]
          congr 1
          omega
        split
        case h_1 errno failed =>
          rw [sampleBytes_length, Ring.slice_length] at taken
          have pairs : accepted answers (2 * count) = 2 * (accepted answers (2 * count) / 2) := by
            omega
          rw [pairs, sampleBytes_take] at taken
          refine ⟨_, taken, ?_, fun ok => absurd (failed.symm.trans ok) nofun⟩
          rw [cut]
          exact (List.take_prefix _ _).trans (List.prefix_append _ _)
        case h_2 ok =>
          obtain ⟨look, bytes, front, all⟩ := ih (by omega) even
          refine ⟨ring.slice firstSample count ++ look, ?_, ?_, fun done => ?_⟩
          · rw [whole ok, bytes, sampleBytes_append]
          · rw [cut]
            exact (List.prefix_append_right_inj _).mpr front
          · rw [cut, all done]

/-! ### What was captured -/

def PcmFrame.numbered (frame : PcmFrame) : List (Int16 × Nat) :=
  frame.samples.zipIdx frame.firstSample

/-- The frames at the end that follow each other without a gap. -/
def lastRun (frames : List PcmFrame) : List PcmFrame :=
  frames.foldl
    (fun run frame =>
      match run.getLast? with
      | none => [frame]
      | some last =>
          if frame.firstSample = last.firstSample + last.samples.length then run ++ [frame]
          else [frame])
    []

/-- The captured samples that are still there, from the detection on. -/
def lookBack (past : List PcmFrame) (detectionSample : Nat) : List (Int16 × Nat) :=
  (((lastRun past).flatMap PcmFrame.numbered).rtake pcmRingSamples).filter
    fun sample => detectionSample ≤ sample.2

theorem lastRun_concat (frames : List PcmFrame) (frame : PcmFrame) :
    lastRun (frames ++ [frame]) =
      match (lastRun frames).getLast? with
      | none => [frame]
      | some last =>
          if frame.firstSample = last.firstSample + last.samples.length then
            lastRun frames ++ [frame]
          else [frame] := by
  rw [lastRun, List.foldl_append]
  rfl

structure Captured (ring : PcmRing) (base : Nat) (run : List PcmFrame) : Prop where
  retains : Retains ring base (run.flatMap PcmFrame.samples)
  count : ring.count = min pcmRingSamples (run.flatMap PcmFrame.samples).length
  numbered : run.flatMap PcmFrame.numbered = (run.flatMap PcmFrame.samples).zipIdx base
  last : ∀ frame ∈ run.getLast?, ring.stop = frame.firstSample + frame.samples.length
  filled : run = [] → ring.count = 0

theorem Captured.fresh (ring : PcmRing) (frame : PcmFrame) :
    Captured ((ring.primeAt frame.firstSample).append frame.samples) frame.firstSample [frame] := by
  have retains := (Retains.primeAt ring frame.firstSample).append frame.samples
  rw [List.nil_append] at retains
  have flat : [frame].flatMap PcmFrame.samples = frame.samples := List.flatMap_singleton _ _
  refine ⟨by rwa [flat], ?_, ?_, fun last member => ?_, nofun⟩
  · rw [Ring.append_count, flat]
    show min pcmRingSamples (0 + _) = _
    rw [Nat.zero_add]
  · rw [flat, List.flatMap_singleton]
    rfl
  · rw [List.getLast?_singleton, Option.mem_some_iff] at member
    rw [← member]
    exact retains.stop

theorem Captured.more {ring : PcmRing} {base : Nat} {run : List PcmFrame} {last : PcmFrame}
    (captured : Captured ring base run) (frame : PcmFrame) (ends : run.getLast? = some last)
    (follows : frame.firstSample = last.firstSample + last.samples.length) :
    Captured (ring.append frame.samples) base (run ++ [frame]) := by
  have flat : (run ++ [frame]).flatMap PcmFrame.samples =
      run.flatMap PcmFrame.samples ++ frame.samples := by
    rw [List.flatMap_append, List.flatMap_singleton]
  have stop := captured.last last ends
  have place := captured.retains.stop
  refine ⟨?_, ?_, ?_, fun newest member => ?_, fun none => ?_⟩
  · rw [flat]
    exact captured.retains.append frame.samples
  · rw [Ring.append_count, captured.count, flat, List.length_append]
    omega
  · rw [flat, List.flatMap_append, captured.numbered, List.flatMap_singleton, List.zipIdx_append,
      PcmFrame.numbered]
    congr 2
    omega
  · rw [List.getLast?_concat, Option.mem_some_iff] at member
    rw [← member, Ring.append_stop]
    omega
  · exact absurd none (List.append_ne_nil_of_right_ne_nil run (List.cons_ne_nil _ _))

theorem ring_captured (frames : List PcmFrame) :
    ∃ base, Captured (frames.foldl ringAppend pcmRingStart) base (lastRun frames) := by
  induction frames using List.reverseRecOn with
  | nil => exact ⟨0, ⟨rfl, Nat.le_refl 0, fun n low high => absurd high (Nat.not_lt_zero n)⟩, rfl,
      rfl, nofun, fun _ => rfl⟩
  | append_singleton frames frame ih =>
      obtain ⟨base, captured⟩ := ih
      rw [List.foldl_append, lastRun_concat]
      show ∃ base, Captured (ringAppend (frames.foldl ringAppend pcmRingStart) frame) base _
      generalize frames.foldl ringAppend pcmRingStart = ring at *
      rw [ringAppend]
      cases ends : (lastRun frames).getLast? with
      | none =>
          have empty := captured.filled (List.getLast?_eq_none_iff.mp ends)
          rw [if_pos (.inl empty)]
          exact ⟨_, .fresh ring frame⟩
      | some last =>
          have stop : ring.first + ring.count = last.firstSample + last.samples.length :=
            captured.last last ends
          dsimp only
          by_cases follows : frame.firstSample = last.firstSample + last.samples.length
          · have filled : (lastRun frames).flatMap PcmFrame.samples ≠ [] := by
              intro none
              refine last.some (List.eq_nil_iff_forall_not_mem.mpr fun sample member => ?_)
              have inside := List.mem_flatMap.mpr ⟨last, List.mem_of_getLast? ends, member⟩
              rw [none] at inside
              exact List.not_mem_nil inside
            have some := List.length_pos_of_ne_nil filled
            have room : 0 < pcmRingSamples := by decide
            have count := captured.count
            have kept : ¬(ring.count = 0 ∨ frame.firstSample ≠ ring.first + ring.count) := by
              rintro (none | gap)
              · omega
              · exact gap (follows.trans stop.symm)
            rw [if_neg kept, if_pos follows]
            exact ⟨base, captured.more frame ends follows⟩
          · rw [if_pos (.inr fun same => follows (same.trans stop)), if_neg follows]
            exact ⟨_, .fresh ring frame⟩

theorem zipIdx_from (l : List Int16) (base n : Nat) :
    (l.zipIdx base).filter (fun sample => n ≤ sample.2) = (l.drop (n - base)).zipIdx (max n base) := by
  induction l generalizing base with
  | nil => rw [List.drop_nil]; rfl
  | cons x l ih =>
      rw [List.zipIdx_cons]
      by_cases early : n ≤ base
      · have none : n - base = 0 := by omega
        have later : n - (base + 1) = 0 := by omega
        have kept : (base + 1) = max n (base + 1) := by omega
        rw [List.filter_cons, if_pos (decide_eq_true early), ih, none, later, List.drop_zero,
          List.drop_zero, Nat.max_eq_right early, ← kept, List.zipIdx_cons]
      · have more : n - base = n - (base + 1) + 1 := by omega
        have kept : max n base = max n (base + 1) := by omega
        rw [List.filter_cons, if_neg (by simpa using early), ih, more, List.drop_succ_cons, kept]

theorem zipIdx_rtake (l : List Int16) (base n : Nat) :
    (l.zipIdx base).rtake n = (l.rtake n).zipIdx (base + (l.length - n)) := by
  rw [List.rtake, List.rtake, List.length_zipIdx]
  generalize l.length - n = k
  induction k generalizing l base with
  | zero => rfl
  | succ k ih =>
      cases l with
      | nil => rfl
      | cons x l =>
          rw [List.zipIdx_cons, List.drop_succ_cons, List.drop_succ_cons, ih, Nat.succ_add_eq_add_succ]

theorem Captured.lookBack {ring : PcmRing} {base : Nat} {past : List PcmFrame}
    (captured : Captured ring base (lastRun past)) (detectionSample : Nat) :
    lookBack past detectionSample =
      (ring.slice (max detectionSample ring.first)
        (ring.stop - max detectionSample ring.first)).zipIdx (max detectionSample ring.first) := by
  have stop : ring.first + ring.count = base + ((lastRun past).flatMap PcmFrame.samples).length :=
    captured.retains.stop
  have count : ring.count = min pcmRingSamples ((lastRun past).flatMap PcmFrame.samples).length :=
    captured.count
  have first : base + (((lastRun past).flatMap PcmFrame.samples).length - pcmRingSamples) =
      ring.first := by
    omega
  rw [Stt.lookBack, captured.numbered, zipIdx_rtake, zipIdx_from, first]
  refine congrArg (fun l => List.zipIdx l (max detectionSample ring.first)) ?_
  rw [List.rtake, List.drop_drop]
  by_cases inside : max detectionSample ring.first ≤ ring.stop
  · rw [captured.retains.slice (Nat.le_max_right _ _) (by omega)]
    have place : max detectionSample ring.first - base =
        ((lastRun past).flatMap PcmFrame.samples).length - pcmRingSamples +
          (detectionSample - ring.first) := by
      omega
    rw [place, List.take_of_length_le]
    rw [List.length_drop]
    have whole : ring.stop = ring.first + ring.count := rfl
    omega
  · have none : ring.stop - max detectionSample ring.first = 0 := by omega
    have whole : ring.stop = ring.first + ring.count := rfl
    rw [none, List.drop_of_length_le (by omega)]
    rfl

/-! ### A whole turn -/

def SttTurn.Whole (t : SttTurn) (frame : PcmFrame) : Prop :=
  t.sttFd = true → t.detectionSample < frame.firstSample + frame.samples.length →
    let size := 2 * (frame.part t.detectionSample).length
    accepted t.answers size = 0 ∨ accepted t.answers size = size

/-- Consecutive captured samples from the start on, then whole frames, some of them left out. -/
structure SttAligned (past live : List PcmFrame) (detectionSample : Nat) (bytes : Bytes)
    (look : List (Int16 × Nat)) (kept : List PcmFrame) : Prop where
  bytes : bytes =
    sampleBytes (look.map Prod.fst ++ kept.flatMap fun frame => frame.part detectionSample)
  front : look <+: lookBack past detectionSample
  consecutive : ∃ start, detectionSample ≤ start ∧
    look.map Prod.snd = List.range' start look.length
  chosen : kept.Sublist live
  whole : kept ≠ [] → look = lookBack past detectionSample

/-- The turn has taken what is aligned, and it is listened to only behind the whole ring. -/
structure SttTurn.Fed (past live : List PcmFrame) (detectionSample : Nat) (t : SttTurn)
    (look : List (Int16 × Nat)) (kept : List PcmFrame) : Prop where
  aligned : SttAligned past live detectionSample t.bytes look kept
  sample : t.detectionSample = detectionSample
  listens : t.sttFd = true → look = lookBack past detectionSample

section Turn
variable {past live : List PcmFrame} {detectionSample : Nat}

theorem SttAligned.later {bytes : Bytes} {look : List (Int16 × Nat)} {kept : List PcmFrame}
    (aligned : SttAligned past live detectionSample bytes look kept) (frame : PcmFrame) :
    SttAligned past (live ++ [frame]) detectionSample bytes look kept :=
  ⟨aligned.bytes, aligned.front, aligned.consecutive,
    aligned.chosen.trans (List.sublist_append_left live [frame]), aligned.whole⟩

theorem startRecognition_fed {answers : List WriteAnswer}
    (even : RingEven (past.foldl ringAppend pcmRingStart)
      ((past.foldl ringAppend pcmRingStart).count + 1)
      (max detectionSample (past.foldl ringAppend pcmRingStart).first) answers) :
    ∃ look, (startRecognition (past.foldl ringAppend pcmRingStart) detectionSample answers).Fed past
      [] detectionSample look [] := by
  obtain ⟨base, captured⟩ := ring_captured past
  generalize past.foldl ringAppend pcmRingStart = ring at *
  have numbered := captured.lookBack detectionSample
  have stop : ring.stop = ring.first + ring.count := rfl
  obtain ⟨look, bytes, front, all⟩ := ringWriteLoop_spec (by omega) even
  refine ⟨look.zipIdx (max detectionSample ring.first), ⟨?_, ?_, ⟨max detectionSample ring.first, Nat.le_max_left _ _, ?_⟩,
    .slnil, fun some => absurd rfl some⟩, rfl, fun listens => ?_⟩
  · rw [List.zipIdx_map_fst, List.flatMap_nil, List.append_nil]
    exact bytes
  · obtain ⟨back, whole⟩ := front
    rw [numbered, ← whole, List.zipIdx_append]
    exact List.prefix_append _ _
  · rw [List.zipIdx_map_snd, List.length_zipIdx]
  · rw [numbered, all (Option.isNone_iff_eq_none.mp listens)]

theorem SttTurn.Fed.feed {t : SttTurn} {look : List (Int16 × Nat)} {kept : List PcmFrame}
    {frame : PcmFrame} (fed : t.Fed past live detectionSample look kept) (whole : t.Whole frame) :
    ∃ kept', (t.feed frame).Fed past (live ++ [frame]) detectionSample look kept' := by
  rw [SttTurn.feed]
  split
  case isFalse => exact ⟨kept, fed.aligned.later frame, fed.sample, fed.listens⟩
  case isTrue hears =>
    have taken := whole hears.1 hears.2
    dsimp only at taken ⊢
    split
    case isTrue => exact ⟨kept, fed.aligned.later frame, fed.sample, fed.listens⟩
    case isFalse =>
      have bytes := (writeAll_bytes t.answers (sampleBytes (frame.part t.detectionSample))).1
      rw [sampleBytes_length] at bytes
      obtain nothing | all := taken
      · rw [nothing, List.take_zero] at bytes
        rw [bytes, List.append_nil]
        exact ⟨kept, fed.aligned.later frame, fed.sample, fun _ => fed.listens hears.1⟩
      · rw [all, ← sampleBytes_length, List.take_length] at bytes
        refine ⟨kept ++ [frame], ⟨?_, fed.aligned.front, fed.aligned.consecutive,
          fed.aligned.chosen.append (.refl _), fun _ => fed.listens hears.1⟩, fed.sample,
          fun _ => fed.listens hears.1⟩
        rw [bytes, fed.aligned.bytes, fed.sample, ← sampleBytes_append, List.flatMap_append,
          List.flatMap_singleton, List.append_assoc]

theorem SttTurn.Fed.run {t : SttTurn} {look : List (Int16 × Nat)} {kept : List PcmFrame}
    (frames : List PcmFrame) (fed : t.Fed past live detectionSample look kept)
    (whole : Runs.Admits SttTurn.feed SttTurn.Whole t frames) :
    ∃ kept', (Runs.run SttTurn.feed t frames).Fed past (live ++ frames) detectionSample look
      kept' := by
  induction frames generalizing t live kept with
  | nil => exact ⟨kept, by rwa [List.append_nil]⟩
  | cons frame frames ih =>
      obtain ⟨kept', next⟩ := fed.feed whole.1
      rw [List.append_cons]
      exact ih next whole.2

end Turn

/-- The recogniser gets consecutive samples and whole frames in every turn whose writes of frames
take all or nothing and whose writes of the ring stop at a sample. -/
theorem sttTurn_aligned (past live : List PcmFrame) (detectionSample : Nat)
    (answers : List WriteAnswer)
    (even : RingEven (past.foldl ringAppend pcmRingStart)
      ((past.foldl ringAppend pcmRingStart).count + 1)
      (max detectionSample (past.foldl ringAppend pcmRingStart).first) answers)
    (whole : Runs.Admits SttTurn.feed SttTurn.Whole
      (startRecognition (past.foldl ringAppend pcmRingStart) detectionSample answers) live) :
    ∃ look kept, SttAligned past live detectionSample
      (Runs.run SttTurn.feed
        (startRecognition (past.foldl ringAppend pcmRingStart) detectionSample answers) live).bytes
      look kept := by
  obtain ⟨look, fed⟩ := startRecognition_fed even
  obtain ⟨kept, done⟩ := fed.run live whole
  exact ⟨look, kept, done.aligned⟩

def oneFrame : PcmFrame where
  firstSample := 0
  samples := [1, 2]
  some := by decide
  limit := by decide

def nextFrame : PcmFrame where
  firstSample := 2
  samples := [3]
  some := by decide
  limit := by decide

/-- The ring is written whole and the frame behind it as well. -/
theorem sttTurn_aligned_whole : ∃ look kept, SttAligned [oneFrame] [nextFrame] 1
    (Runs.run SttTurn.feed (startRecognition ([oneFrame].foldl ringAppend pcmRingStart) 1
      [.took 0, .took 0, .took 7]) [nextFrame]).bytes look kept := by
  refine sttTurn_aligned [oneFrame] [nextFrame] 1 [.took 0, .took 0, .took 7] ?_
    ⟨fun _ _ => .inr ?_, trivial⟩
  · exact fun _ => ⟨by decide +kernel, fun more => absurd more (by decide +kernel)⟩
  · decide +kernel

/-- A frame of which one byte is taken, and the next frame behind it. -/
theorem sttTurn_shifted : ¬∃ look kept, SttAligned [] [oneFrame, nextFrame] 0
    (Runs.run SttTurn.feed (startRecognition pcmRingStart 0 [.took 0, .failed .again, .took 7])
      [oneFrame, nextFrame]).bytes look kept := by
  rintro ⟨look, kept, aligned⟩
  have taken : (Runs.run SttTurn.feed
      (startRecognition pcmRingStart 0 [.took 0, .failed .again, .took 7])
      [oneFrame, nextFrame]).bytes = [1, 3, 0] := by
    decide +kernel
  have size := congrArg List.length (taken.symm.trans aligned.bytes)
  rw [sampleBytes_length] at size
  have odd : [1, 3, 0].length = 3 := rfl
  omega

end LibreEcho.Voice.Stt
