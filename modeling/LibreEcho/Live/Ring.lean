import LibreEcho.Lib.RingBuffer

/-!
The sample-indexed preroll ring of `live_ring.c`.

The ring is the generic bounded ring at 16-bit samples, together with the flag
that tells an empty ring from one that has a position. Sample numbers are
natural numbers: a 64-bit counter at 16 kHz does not wrap.
-/
namespace LibreEcho.Live
open RingBuffer

def leLiveRingRate : Nat := 16000

def leLiveRingSeconds : Nat := 3

def leLiveRingCapacity : Nat := leLiveRingRate * leLiveRingSeconds

instance : NeZero leLiveRingCapacity := ⟨by decide⟩

structure LeLiveRing where
  buffer : Ring Int16 leLiveRingCapacity
  primed : Bool

def leLiveRingZero : LeLiveRing where
  buffer := { slots := fun _ => 0, first := 0, count := 0, fits := Nat.zero_le _ }
  primed := false

def leLiveRingReset (ring : LeLiveRing) : LeLiveRing where
  buffer := ring.buffer.reset
  primed := false

/-- `none` is the error return: the frame is empty or longer than the ring. -/
def leLiveRingAppend (ring : LeLiveRing) (firstSample : Nat) (samples : List Int16) :
    Option LeLiveRing :=
  if samples.length = 0 ∨ leLiveRingCapacity < samples.length then none
  else
    -- a frame that does not continue the numbering starts the ring over
    let ring :=
      if ring.primed ∧ firstSample ≠ ring.buffer.first + ring.buffer.count then
        leLiveRingReset ring
      else ring
    let ring : LeLiveRing :=
      if ring.primed then ring
      else { buffer := ring.buffer.primeAt firstSample, primed := true }
    some { ring with buffer := ring.buffer.append samples }

def leLiveRingBegin (ring : LeLiveRing) : Nat :=
  if ring.buffer.count ≠ 0 then ring.buffer.first else 0

def leLiveRingEnd (ring : LeLiveRing) : Nat :=
  if ring.buffer.count ≠ 0 then ring.buffer.first + ring.buffer.count else 0

def leLiveRingStartForWake (ring : LeLiveRing) (detectionSample prerollSamples : Nat) : Nat :=
  if ring.buffer.count = 0 then 0
  else
    let start := if prerollSamples < detectionSample then detectionSample - prerollSamples else 0
    let start := if start < ring.buffer.first then ring.buffer.first else start
    if ring.buffer.first + ring.buffer.count ≤ start then 0 else start

/-- The samples copied out; an empty list is the return value 0. -/
def leLiveRingRead (ring : LeLiveRing) (firstSample count : Nat) : List Int16 :=
  if count = 0 ∨ ring.buffer.count = 0 then []
  else if firstSample < ring.buffer.first then []
  else if ring.buffer.first + ring.buffer.count ≤ firstSample then []
  else
    ring.buffer.slice firstSample
      (min count (ring.buffer.first + ring.buffer.count - firstSample))

theorem leLiveRingAppend_some {ring ring' : LeLiveRing} {firstSample : Nat}
    {samples : List Int16} (accepted : leLiveRingAppend ring firstSample samples = some ring') :
    samples.length ≠ 0 ∧ samples.length ≤ leLiveRingCapacity := by
  rw [leLiveRingAppend] at accepted
  split at accepted
  · exact nomatch accepted
  · omega

theorem leLiveRingAppend_eq {ring : LeLiveRing} {firstSample : Nat} {samples : List Int16}
    (nonempty : samples.length ≠ 0) (short : samples.length ≤ leLiveRingCapacity)
    (continues : ring.primed = true → firstSample = ring.buffer.stop) :
    leLiveRingAppend ring firstSample samples = some
      { buffer := (if ring.primed then ring.buffer
          else ring.buffer.primeAt firstSample).append samples
        primed := true } := by
  have hshort : ¬(samples.length = 0 ∨ leLiveRingCapacity < samples.length) := by omega
  rw [leLiveRingAppend, if_neg hshort]
  cases hp : ring.primed with
  | true =>
      have hc : firstSample = ring.buffer.first + ring.buffer.count := continues hp
      simp [hp, hc]
  | false => simp [hp]

theorem leLiveRingEnd_eq_stop {ring : LeLiveRing} (h : ring.buffer.count ≠ 0) :
    leLiveRingEnd ring = ring.buffer.stop := by
  simp [leLiveRingEnd, h, Ring.stop]

theorem leLiveRingStartForWake_eq {ring : LeLiveRing} {detectionSample prerollSamples : Nat}
    (nonempty : ring.buffer.count ≠ 0)
    (inside : detectionSample - prerollSamples < ring.buffer.stop) :
    leLiveRingStartForWake ring detectionSample prerollSamples =
      max ring.buffer.first (detectionSample - prerollSamples) := by
  have hstop : ring.buffer.stop = ring.buffer.first + ring.buffer.count := rfl
  have hstart : (if prerollSamples < detectionSample then detectionSample - prerollSamples
      else 0) = detectionSample - prerollSamples := by
    split <;> omega
  simp only [leLiveRingStartForWake, nonempty, hstart, ite_false]
  split
  · rw [if_neg (by omega)]
    omega
  · rw [if_neg (by omega)]
    omega

theorem leLiveRingRead_eq {ring : LeLiveRing} {firstSample count : Nat}
    (wanted : count ≠ 0) (lower : ring.buffer.first ≤ firstSample)
    (upper : firstSample < ring.buffer.stop) :
    leLiveRingRead ring firstSample count =
      ring.buffer.slice firstSample (min count (ring.buffer.stop - firstSample)) := by
  have hstop : ring.buffer.stop = ring.buffer.first + ring.buffer.count := rfl
  have hcount : ring.buffer.count ≠ 0 := by omega
  rw [leLiveRingRead, if_neg (by omega), if_neg (by omega), if_neg (by omega), ← hstop]

theorem leLiveRingRead_gone {ring : LeLiveRing} {firstSample count : Nat}
    (gone : firstSample < ring.buffer.first) : leLiveRingRead ring firstSample count = [] := by
  simp [leLiveRingRead, gone]

end LibreEcho.Live
