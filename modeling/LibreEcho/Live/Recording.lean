import LibreEcho.Live.Ring

/-!
The preroll ring against an unbounded recording.

The ring of the code counts samples in 64 bits. While the numbers of a frame
stay below the last capacity of them, it computes what the ring on natural
numbers does, and that one holds the newest samples of a recording that forgets
nothing but starts over at each gap in the numbering.
-/
namespace LibreEcho.Live
open RingBuffer

/-- A frame of `waked`. -/
structure LiveFrame where
  firstSample : UInt64
  samples : List Int16

/-! ### The ring in 64 bits -/

/-- `struct le_live_ring` with the width of its sample number. -/
structure LiveRing64 where
  samples : Fin leLiveRingCapacity → Int16
  firstSample : UInt64
  count : Nat
  primed : Bool
  fits : count ≤ leLiveRingCapacity

namespace LiveRing64
variable (ring : LiveRing64)

def idle (samples : Fin leLiveRingCapacity → Int16) : LiveRing64 :=
  ⟨samples, 0, 0, false, Nat.zero_le _⟩

def stop : UInt64 :=
  ring.firstSample + UInt64.ofNat ring.count

def slot (sample : UInt64) : Fin leLiveRingCapacity :=
  Fin.ofNat leLiveRingCapacity sample.toNat

def reset : LiveRing64 :=
  idle ring.samples

def primeAt (firstSample : UInt64) : LiveRing64 :=
  ⟨ring.samples, firstSample, 0, true, Nat.zero_le _⟩

/-- One round of the loop of `le_live_ring_append`. -/
def push (sample : Int16) : LiveRing64 :=
  if full : ring.count = leLiveRingCapacity then
    -- the oldest sample is dropped first, which leaves the same end
    { ring with
      samples := Function.update ring.samples
        (slot (ring.firstSample + 1 + UInt64.ofNat (ring.count - 1))) sample
      firstSample := ring.firstSample + 1 }
  else
    { ring with
      samples := Function.update ring.samples (slot ring.stop) sample
      count := ring.count + 1
      fits := Nat.lt_of_le_of_ne ring.fits full }

def leLiveRingAppend (frame : LiveFrame) : Option LiveRing64 :=
  if frame.samples.length = 0 ∨ leLiveRingCapacity < frame.samples.length then none
  else
    let ring := if ring.primed ∧ frame.firstSample ≠ ring.stop then ring.reset else ring
    let ring := if ring.primed then ring else ring.primeAt frame.firstSample
    some (frame.samples.foldl push ring)

def hear (frame : LiveFrame) : LiveRing64 :=
  (ring.leLiveRingAppend frame).getD ring

def leLiveRingBegin : UInt64 :=
  if ring.count ≠ 0 then ring.firstSample else 0

def leLiveRingEnd : UInt64 :=
  if ring.count ≠ 0 then ring.stop else 0

def leLiveRingRead (firstSample : UInt64) (count : Nat) : List Int16 :=
  if count = 0 ∨ ring.count = 0 then []
  else if firstSample < ring.firstSample then []
  else if ring.stop ≤ firstSample then []
  else
    (List.range (min count (ring.stop - firstSample).toNat)).map fun i =>
      ring.samples (slot (firstSample + UInt64.ofNat i))

/-! ### The same ring on natural numbers -/

def toRing : LeLiveRing where
  buffer := ⟨ring.samples, ring.firstSample.toNat, ring.count, ring.fits⟩
  primed := ring.primed

/-- The numbers in use have not reached the end of the counter. -/
def Numbered : Prop :=
  ring.firstSample.toNat + ring.count < 2 ^ 64

variable {ring}

theorem toNat_add_count {sample : UInt64} {n : Nat} (below : sample.toNat + n < 2 ^ 64) :
    (sample + UInt64.ofNat n).toNat = sample.toNat + n := by
  have small : n < 2 ^ 64 := by omega
  rw [UInt64.toNat_add, UInt64.toNat_ofNat_of_lt' small, Nat.mod_eq_of_lt below]

theorem stop_toNat (numbered : ring.Numbered) : ring.stop.toNat = ring.toRing.buffer.stop :=
  toNat_add_count numbered

theorem push_toRing (room : ring.firstSample.toNat + ring.count + 1 < 2 ^ 64) (sample : Int16) :
    (ring.push sample).toRing = { ring.toRing with buffer := ring.toRing.buffer.push sample } := by
  have numbered : ring.Numbered := by
    unfold Numbered
    omega
  have here : slot ring.stop = Fin.ofNat leLiveRingCapacity ring.toRing.buffer.stop := by
    rw [slot, stop_toNat numbered]
  unfold push Ring.push
  by_cases full : ring.count = leLiveRingCapacity
  · have next : (ring.firstSample + 1).toNat = ring.firstSample.toNat + 1 :=
      toNat_add_count (n := 1) (by omega)
    have same : ring.firstSample + 1 + UInt64.ofNat (ring.count - 1) = ring.stop := by
      refine UInt64.toNat_inj.mp ?_
      have positive : 0 < ring.count := by rw [full]; decide
      rw [toNat_add_count (by rw [next]; omega), next, stop_toNat numbered]
      change ring.firstSample.toNat + 1 + (ring.count - 1) = ring.firstSample.toNat + ring.count
      omega
    rw [dif_pos full, dif_pos (show ring.toRing.buffer.count = leLiveRingCapacity from full), same,
      ← here, toRing]
    simp only [next]
    rfl
  · rw [dif_neg full, dif_neg (show ring.toRing.buffer.count ≠ leLiveRingCapacity from full),
      ← here]
    rfl

theorem foldl_push_toRing (samples : List Int16)
    (room : ring.firstSample.toNat + ring.count + samples.length < 2 ^ 64) :
    (samples.foldl push ring).toRing =
      { ring.toRing with buffer := ring.toRing.buffer.append samples } := by
  induction samples generalizing ring with
  | nil => rfl
  | cons sample rest ih =>
      rw [List.length_cons] at room
      have pushed : (ring.push sample).toRing =
          { ring.toRing with buffer := ring.toRing.buffer.push sample } :=
        push_toRing (by omega) sample
      have stop : (ring.push sample).firstSample.toNat + (ring.push sample).count =
          ring.firstSample.toNat + ring.count + 1 := by
        have same : (ring.push sample).toRing.buffer = ring.toRing.buffer.push sample :=
          congrArg LeLiveRing.buffer pushed
        have moved := Ring.push_stop ring.toRing.buffer sample
        rw [← same] at moved
        exact moved
      rw [List.foldl_cons, ih (by omega), pushed]
      rfl

theorem leLiveRingAppend_toRing (numbered : ring.Numbered) {frame : LiveFrame}
    (room : frame.firstSample.toNat + frame.samples.length < 2 ^ 64) :
    (ring.leLiveRingAppend frame).map toRing =
      LibreEcho.Live.leLiveRingAppend ring.toRing frame.firstSample.toNat frame.samples := by
  have gap : frame.firstSample ≠ ring.stop ↔
      frame.firstSample.toNat ≠ ring.toRing.buffer.first + ring.toRing.buffer.count := by
    rw [← UInt64.toNat_inj.ne, stop_toNat numbered]
    rfl
  have primes (before : LiveRing64) :
      (frame.samples.foldl push (before.primeAt frame.firstSample)).toRing =
        { buffer := (before.toRing.buffer.primeAt frame.firstSample.toNat).append frame.samples
          primed := true } :=
    foldl_push_toRing frame.samples room
  unfold leLiveRingAppend LibreEcho.Live.leLiveRingAppend
  split
  case isTrue => rfl
  case isFalse =>
    rw [Option.map_some]
    refine congrArg some ?_
    by_cases primed : ring.primed = true
    · have known : ring.toRing.primed = true := primed
      by_cases broken : frame.firstSample ≠ ring.stop
      · simp only [if_pos (And.intro primed broken), if_pos (And.intro known (gap.mp broken))]
        exact primes ring.reset
      · have held : ¬(ring.primed = true ∧ frame.firstSample ≠ ring.stop) :=
          fun both => broken both.2
        have holds : ¬(ring.toRing.primed = true ∧ frame.firstSample.toNat ≠
            ring.toRing.buffer.first + ring.toRing.buffer.count) :=
          fun both => broken (gap.mpr both.2)
        have start := congrArg UInt64.toNat (not_not.mp broken)
        rw [stop_toNat numbered] at start
        change _ = ring.firstSample.toNat + ring.count at start
        simp only [if_neg held, if_neg holds, if_pos primed, if_pos known]
        rw [foldl_push_toRing frame.samples (by omega)]
    · have unknown : ¬ring.toRing.primed = true := primed
      have held : ¬(ring.primed = true ∧ frame.firstSample ≠ ring.stop) :=
        fun both => primed both.1
      have holds : ¬(ring.toRing.primed = true ∧ frame.firstSample.toNat ≠
          ring.toRing.buffer.first + ring.toRing.buffer.count) :=
        fun both => unknown both.1
      simp only [if_neg held, if_neg holds, if_neg primed, if_neg unknown]
      exact primes ring

theorem leLiveRingBegin_toRing :
    ring.leLiveRingBegin.toNat = LibreEcho.Live.leLiveRingBegin ring.toRing := by
  unfold leLiveRingBegin LibreEcho.Live.leLiveRingBegin
  split
  case isTrue used => rw [if_pos (show ring.toRing.buffer.count ≠ 0 from used)]; rfl
  case isFalse none => rw [if_neg (show ¬ring.toRing.buffer.count ≠ 0 from none)]; rfl

theorem leLiveRingEnd_toRing (numbered : ring.Numbered) :
    ring.leLiveRingEnd.toNat = LibreEcho.Live.leLiveRingEnd ring.toRing := by
  unfold leLiveRingEnd LibreEcho.Live.leLiveRingEnd
  split
  case isTrue used =>
    rw [if_pos (show ring.toRing.buffer.count ≠ 0 from used)]
    exact stop_toNat numbered
  case isFalse none => rw [if_neg (show ¬ring.toRing.buffer.count ≠ 0 from none)]; rfl

theorem leLiveRingRead_toRing (numbered : ring.Numbered) (firstSample : UInt64) (count : Nat) :
    ring.leLiveRingRead firstSample count =
      LibreEcho.Live.leLiveRingRead ring.toRing firstSample.toNat count := by
  have stop := stop_toNat numbered
  have upto : ring.toRing.buffer.stop = ring.toRing.buffer.first + ring.toRing.buffer.count := rfl
  unfold leLiveRingRead LibreEcho.Live.leLiveRingRead
  by_cases nothing : count = 0 ∨ ring.count = 0
  · rw [if_pos nothing, if_pos (show count = 0 ∨ ring.toRing.buffer.count = 0 from nothing)]
  rw [if_neg nothing, if_neg (show ¬(count = 0 ∨ ring.toRing.buffer.count = 0) from nothing)]
  by_cases gone : firstSample < ring.firstSample
  · rw [if_pos gone, if_pos (show firstSample.toNat < ring.toRing.buffer.first from gone)]
  rw [if_neg gone, if_neg (show ¬firstSample.toNat < ring.toRing.buffer.first from gone), ← upto,
    ← stop]
  by_cases ahead : ring.stop ≤ firstSample
  · rw [if_pos ahead, if_pos (UInt64.le_iff_toNat_le.mp ahead)]
  rw [if_neg ahead, if_neg fun le => ahead (UInt64.le_iff_toNat_le.mpr le)]
  have inside : firstSample.toNat < ring.stop.toNat :=
    Nat.lt_of_not_le fun le => ahead (UInt64.le_iff_toNat_le.mpr le)
  have length : (ring.stop - firstSample).toNat = ring.stop.toNat - firstSample.toNat :=
    UInt64.toNat_sub_of_le _ _ (UInt64.le_iff_toNat_le.mpr (Nat.le_of_lt inside))
  rw [length]
  refine List.map_congr_left fun i member => ?_
  have within : i < ring.stop.toNat - firstSample.toNat :=
    Nat.lt_of_lt_of_le (List.mem_range.mp member) (Nat.min_le_right _ _)
  have below : firstSample.toNat + i < 2 ^ 64 := by
    have := ring.stop.toNat_lt
    omega
  rw [slot, toNat_add_count below]
  rfl

end LiveRing64

/-! ### The recording -/

/-- Everything that was stored since the numbering last broke off. -/
structure Recording where
  base : Nat
  samples : List Int16

namespace Recording
variable (r : Recording)

def empty : Recording :=
  ⟨0, []⟩

def stop : Nat :=
  r.base + r.samples.length

/-- A frame that does not continue the numbering starts the recording over. -/
def record (frame : LiveFrame) : Recording :=
  if frame.samples = [] then r
  else if r.samples ≠ [] ∧ frame.firstSample.toNat = r.stop then
    { r with samples := r.samples ++ frame.samples }
  else ⟨frame.firstSample.toNat, frame.samples⟩

/-- The samples with a number from `first` on and before `upto`. -/
def numbered (first upto : Nat) : List Int16 :=
  (r.samples.drop (first - r.base)).take (upto - first)

variable {r} {frame : LiveFrame}

theorem record_continues (filled : frame.samples ≠ []) (before : r.samples ≠ [])
    (goesOn : frame.firstSample.toNat = r.stop) :
    r.record frame = { r with samples := r.samples ++ frame.samples } := by
  rw [record, if_neg filled, if_pos ⟨before, goesOn⟩]

theorem record_restarts (filled : frame.samples ≠ [])
    (broken : r.samples ≠ [] → frame.firstSample.toNat ≠ r.stop) :
    r.record frame = ⟨frame.firstSample.toNat, frame.samples⟩ := by
  rw [record, if_neg filled, if_neg fun both => broken both.1 both.2]

theorem record_filled (filled : frame.samples ≠ []) : (r.record frame).samples ≠ [] := by
  by_cases goesOn : r.samples ≠ [] ∧ frame.firstSample.toNat = r.stop
  · rw [record_continues filled goesOn.1 goesOn.2]
    exact List.append_ne_nil_of_left_ne_nil goesOn.1 _
  · rw [record_restarts filled fun before same => goesOn ⟨before, same⟩]
    exact filled

theorem record_stop (filled : frame.samples ≠ []) :
    (r.record frame).stop = frame.firstSample.toNat + frame.samples.length := by
  by_cases goesOn : r.samples ≠ [] ∧ frame.firstSample.toNat = r.stop
  · rw [record_continues filled goesOn.1 goesOn.2, goesOn.2]
    simp only [stop, List.length_append]
    omega
  · rw [record_restarts filled fun before same => goesOn ⟨before, same⟩]
    rfl

end Recording

/-- The ring on natural numbers holds the newest samples of the recording. -/
structure Holds (ring : LeLiveRing) (r : Recording) : Prop where
  retains : ring.primed = true → Retains ring.buffer r.base r.samples
  count : ring.buffer.count = min leLiveRingCapacity r.samples.length
  primed : ring.primed = true ↔ r.samples ≠ []

namespace Holds
variable {ring : LeLiveRing} {r : Recording}

theorem stop (holds : Holds ring r) (filled : r.samples ≠ []) : ring.buffer.stop = r.stop :=
  (holds.retains (holds.primed.mpr filled)).stop

theorem append (holds : Holds ring r) {frame : LiveFrame}
    (short : frame.samples.length ≤ leLiveRingCapacity) (filled : frame.samples ≠ []) :
    ∃ after, leLiveRingAppend ring frame.firstSample.toNat frame.samples = some after ∧
      Holds after (r.record frame) := by
  have some_length : frame.samples.length ≠ 0 := fun none => filled (List.length_eq_zero_iff.mp none)
  have started (buffer : Ring Int16 leLiveRingCapacity) :
      Holds ⟨(buffer.primeAt frame.firstSample.toNat).append frame.samples, true⟩
        ⟨frame.firstSample.toNat, frame.samples⟩ := by
    refine ⟨fun _ => ?_, ?_, ⟨fun _ => filled, fun _ => rfl⟩⟩
    · exact (Retains.primeAt buffer frame.firstSample.toNat).append frame.samples
    · rw [Ring.append_count]
      change min _ (0 + _) = _
      rw [Nat.zero_add]
  by_cases primed : ring.primed = true
  · have before : r.samples ≠ [] := holds.primed.mp primed
    have retains := holds.retains primed
    by_cases goesOn : frame.firstSample.toNat = ring.buffer.stop
    · refine ⟨_, leLiveRingAppend_eq some_length short fun _ => goesOn, ?_⟩
      rw [Recording.record_continues filled before (goesOn.trans (holds.stop before)),
        if_pos primed]
      refine ⟨fun _ => retains.append frame.samples, ?_, ⟨fun _ => ?_, fun _ => rfl⟩⟩
      · rw [Ring.append_count, holds.count, List.length_append]
        omega
      · exact List.append_ne_nil_of_left_ne_nil before _
    · refine ⟨⟨(ring.buffer.reset.primeAt frame.firstSample.toNat).append frame.samples, true⟩,
        ?_, ?_⟩
      rotate_left
      · rw [Recording.record_restarts filled fun _ same =>
          goesOn (same.trans (holds.stop before).symm)]
        exact started ring.buffer.reset
      · have refused : ¬(frame.samples.length = 0 ∨ leLiveRingCapacity < frame.samples.length) := by
          omega
        have gap : frame.firstSample.toNat ≠ ring.buffer.first + ring.buffer.count := goesOn
        simp only [leLiveRingAppend, if_neg refused, if_pos (And.intro primed gap)]
        rfl
  · have before : ¬r.samples ≠ [] := fun filled => primed (holds.primed.mpr filled)
    refine ⟨_, leLiveRingAppend_eq some_length short fun yes => absurd yes primed, ?_⟩
    rw [Recording.record_restarts filled fun yes => absurd yes before, if_neg primed]
    exact started ring.buffer

theorem delimits (holds : Holds ring r) :
    leLiveRingEnd ring = (if r.samples = [] then 0 else r.stop) ∧
      leLiveRingBegin ring = leLiveRingEnd ring - min leLiveRingCapacity r.samples.length := by
  by_cases nothing : r.samples = []
  · have none : ring.buffer.count = 0 := by
      rw [holds.count, nothing]
      rfl
    simp [leLiveRingEnd, leLiveRingBegin, none, nothing]
  · have stop : ring.buffer.first + ring.buffer.count = r.stop := holds.stop nothing
    have some_length : 0 < r.samples.length := List.length_pos_iff.mpr nothing
    have used : ring.buffer.count ≠ 0 := by
      have : leLiveRingCapacity = 48000 := rfl
      rw [holds.count]
      omega
    rw [leLiveRingEnd, leLiveRingBegin, if_pos used, if_pos used, if_neg nothing, ← holds.count,
      ← stop, Nat.add_sub_cancel]
    exact ⟨rfl, rfl⟩

theorem read (holds : Holds ring r) (firstSample count : Nat) :
    leLiveRingRead ring firstSample count =
      if leLiveRingBegin ring ≤ firstSample ∧ firstSample < leLiveRingEnd ring then
        r.numbered firstSample (min (firstSample + count) (leLiveRingEnd ring))
      else [] := by
  by_cases used : ring.buffer.count = 0
  · rw [leLiveRingRead, if_pos (.inr used), leLiveRingEnd, if_neg (not_not_intro used),
      if_neg fun both => Nat.not_lt_zero _ both.2]
  have first : leLiveRingBegin ring = ring.buffer.first := if_pos used
  have last : leLiveRingEnd ring = ring.buffer.stop := if_pos used
  rw [first, last]
  by_cases inside : ring.buffer.first ≤ firstSample ∧ firstSample < ring.buffer.stop
  · rw [if_pos inside, Recording.numbered]
    by_cases nothing : count = 0
    · have none : min (firstSample + count) ring.buffer.stop - firstSample = 0 := by omega
      rw [leLiveRingRead, if_pos (.inl nothing), none, List.take_zero]
    · have primed : ring.primed = true := by
        refine holds.primed.mpr fun empty => used ?_
        rw [holds.count, empty]
        rfl
      have length : min (firstSample + count) ring.buffer.stop - firstSample =
          min count (ring.buffer.stop - firstSample) := by omega
      rw [leLiveRingRead_eq nothing inside.1 inside.2, length]
      exact (holds.retains primed).slice inside.1 (by omega)
  · rw [if_neg inside, leLiveRingRead]
    by_cases early : firstSample < ring.buffer.first
    · rw [if_pos early, ite_self]
    · have late : ring.buffer.first + ring.buffer.count ≤ firstSample :=
        Nat.le_of_not_lt fun before => inside ⟨Nat.le_of_not_lt early, before⟩
      rw [if_neg early, if_pos late, ite_self]

end Holds

/-! ### Every sequence of frames -/

def hearAll (slots : Fin leLiveRingCapacity → Int16) (frames : List LiveFrame) : LiveRing64 :=
  frames.foldl LiveRing64.hear (LiveRing64.idle slots)

def recordAll (frames : List LiveFrame) : Recording :=
  frames.foldl Recording.record Recording.empty

/-- The ring of the code is numbered, and holds the newest samples of the recording. -/
def HeldBy (ring : LiveRing64) (r : Recording) : Prop :=
  ring.Numbered ∧ Holds ring.toRing r

theorem HeldBy.hear {ring : LiveRing64} {r : Recording} (tracks : HeldBy ring r)
    {frame : LiveFrame} (short : frame.samples.length ≤ leLiveRingCapacity)
    (low : frame.firstSample.toNat < 2 ^ 64 - leLiveRingCapacity) :
    HeldBy (ring.hear frame) (r.record frame) := by
  by_cases filled : frame.samples = []
  · have refused : ring.leLiveRingAppend frame = none := by
      rw [LiveRing64.leLiveRingAppend, if_pos (.inl (by rw [filled]; rfl))]
    rw [LiveRing64.hear, refused, Recording.record, if_pos filled]
    exact tracks
  · have room : frame.firstSample.toNat + frame.samples.length < 2 ^ 64 := by
      have : leLiveRingCapacity = 48000 := rfl
      omega
    obtain ⟨after, appended, holds⟩ := tracks.2.append short filled
    rw [← LiveRing64.leLiveRingAppend_toRing tracks.1 room, Option.map_eq_some_iff] at appended
    obtain ⟨next, taken, same⟩ := appended
    rw [LiveRing64.hear, taken, Option.getD_some]
    rw [← same] at holds
    refine ⟨?_, holds⟩
    have stop := (holds.stop (Recording.record_filled filled)).trans (Recording.record_stop filled)
    change next.toRing.buffer.stop < _
    omega

theorem tracks_hearAll (slots : Fin leLiveRingCapacity → Int16) {frames : List LiveFrame}
    (short : ∀ frame ∈ frames, frame.samples.length ≤ leLiveRingCapacity)
    (low : ∀ frame ∈ frames, frame.firstSample.toNat < 2 ^ 64 - leLiveRingCapacity) :
    HeldBy (hearAll slots frames) (recordAll frames) := by
  have start : HeldBy (LiveRing64.idle slots) Recording.empty :=
    ⟨show 0 < 2 ^ 64 by decide, nofun, rfl, nofun, fun filled => absurd rfl filled⟩
  unfold hearAll recordAll
  generalize LiveRing64.idle slots = ring at start
  generalize Recording.empty = r at start
  induction frames generalizing ring r with
  | nil => exact start
  | cons frame rest ih =>
      exact ih (fun f member => short f (List.mem_cons_of_mem _ member))
        (fun f member => low f (List.mem_cons_of_mem _ member)) _ _
        (start.hear (short frame List.mem_cons_self) (low frame List.mem_cons_self))

/--
The ring delimits the newest samples of the recording, and a read that starts among them
copies out what the recording has from there on.
-/
theorem hearAll_recordAll (slots : Fin leLiveRingCapacity → Int16) (frames : List LiveFrame)
    (short : ∀ frame ∈ frames, frame.samples.length ≤ leLiveRingCapacity)
    (low : ∀ frame ∈ frames, frame.firstSample.toNat < 2 ^ 64 - leLiveRingCapacity) :
    let ring := hearAll slots frames
    let r := recordAll frames
    let last := if r.samples = [] then 0 else r.stop
    let first := last - min leLiveRingCapacity r.samples.length
    ring.leLiveRingBegin.toNat = first ∧ ring.leLiveRingEnd.toNat = last ∧
      ∀ firstSample count, ring.leLiveRingRead firstSample count =
        if first ≤ firstSample.toNat ∧ firstSample.toNat < last then
          r.numbered firstSample.toNat (min (firstSample.toNat + count) last)
        else [] := by
  have tracks := tracks_hearAll slots short low
  have ends := tracks.2.delimits
  dsimp only
  rw [← ends.1, ← ends.2]
  refine ⟨LiveRing64.leLiveRingBegin_toRing, LiveRing64.leLiveRingEnd_toRing tracks.1, ?_⟩
  intro firstSample count
  rw [LiveRing64.leLiveRingRead_toRing tracks.1]
  exact tracks.2.read firstSample.toNat count

/-- The second frame does not continue the first one. -/
theorem hearAll_recordAll_gap :
    (hearAll (fun _ => 0) [⟨100, [1, 2, 3]⟩, ⟨200, [4, 5]⟩, ⟨202, [6]⟩]).leLiveRingRead 201 9 =
      [5, 6] := by
  rw [(hearAll_recordAll (fun _ => 0) [⟨100, [1, 2, 3]⟩, ⟨200, [4, 5]⟩, ⟨202, [6]⟩]
    (by decide) (by decide)).2.2]
  decide

end LibreEcho.Live
