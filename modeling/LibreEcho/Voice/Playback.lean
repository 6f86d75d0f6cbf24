import LibreEcho.Lib.CircularQueue
import LibreEcho.Lib.Runs
import LibreEcho.Voice.Reply

/-!
The queue of spoken segments in `voice_playback.c`, between its callers and its worker.

Every call and every section of the worker holds the mutex, so a run interleaves them as whole
steps. A cancel empties the queue, and nothing enters it again before a new turn begins.
-/
namespace LibreEcho.Voice

def leVoicePlaybackQueue : Nat := 8

instance : NeZero leVoicePlaybackQueue := ⟨by decide⟩

structure LeVoicePlayback where
  items : CircularQueue (List UInt8) leVoicePlaybackQueue := .empty []
  /-- The `text` that the worker is playing. -/
  playing : Option (List UInt8) := none
  running : Bool := true
  failed : Bool := false
  cancelled : Bool := false

namespace LeVoicePlayback

/-- The text is refused with -1 unless `true` is returned. -/
def enqueue (p : LeVoicePlayback) (text : List UInt8) : LeVoicePlayback × Bool :=
  if text = [] ∨ leVoiceReplySegmentMax ≤ text.length then (p, false)
  else if p.running = false ∨ p.cancelled = true then (p, false)
  else if room : p.items.count < leVoicePlaybackQueue then
    ({ p with items := p.items.put text room }, true)
  else (p, false)

def pending (p : LeVoicePlayback) : Bool :=
  p.playing.isSome || p.items.count ≠ 0

def beginTurn (p : LeVoicePlayback) : LeVoicePlayback × Bool :=
  if p.running = true ∧ p.pending = false then
    ({ p with failed := false, cancelled := false }, true)
  else (p, false)

def cancel (p : LeVoicePlayback) : LeVoicePlayback :=
  { p with cancelled := true, items := p.items.clear }

def stop (p : LeVoicePlayback) : LeVoicePlayback :=
  { p with running := false }

/-- The answer of `le_voice_playback_wait_idle` where it does not wait any longer. -/
def waitIdle (p : LeVoicePlayback) : Option Bool :=
  if p.running = true ∧ p.pending = true then none else some !p.failed

def workerTake (p : LeVoicePlayback) : LeVoicePlayback :=
  if some : 0 < p.items.count then
    if p.running = true ∧ p.playing = none then
      { p with items := p.items.take some, playing := p.items.first }
    else p
  else p

/-- The worker comes back from `play`. -/
def workerDone (p : LeVoicePlayback) (ok : Bool) : LeVoicePlayback :=
  if p.playing.isSome then
    { p with playing := none, failed := p.failed || (!ok && !p.cancelled) }
  else p

end LeVoicePlayback

inductive PlaybackStep where
  | enqueue (text : List UInt8)
  | beginTurn
  | cancel
  | stop
  | workerTake
  | workerDone (ok : Bool)

/-- What became of an accepted text: it was given to `play`, or a cancel dropped it. -/
inductive Fate where
  | played | dropped
deriving DecidableEq

structure WatchedPlayback where
  device : LeVoicePlayback := {}
  accepted : List (List UInt8) := []
  fates : List (List UInt8 × Fate) := []
  /-- The texts accepted since the turn began. -/
  turn : List (List UInt8) := []
  /-- The results of `play` since the turn began. -/
  results : List (List UInt8 × Bool) := []

namespace WatchedPlayback

def step (w : WatchedPlayback) : PlaybackStep → WatchedPlayback
  | .enqueue text =>
      let after := w.device.enqueue text
      if after.2 then
        { w with
          device := after.1, accepted := w.accepted ++ [text], turn := w.turn ++ [text] }
      else { w with device := after.1 }
  | .beginTurn =>
      let after := w.device.beginTurn
      if after.2 then { w with device := after.1, turn := [], results := [] }
      else { w with device := after.1 }
  | .cancel =>
      { w with
        device := w.device.cancel
        fates := w.fates ++ w.device.items.contents.map (·, .dropped) }
  | .stop => { w with device := w.device.stop }
  | .workerTake =>
      { w with
        device := w.device.workerTake
        fates := w.fates ++
          if w.device.playing = none then w.device.workerTake.playing.toList.map (·, .played)
          else [] }
  | .workerDone ok =>
      { w with
        device := w.device.workerDone ok
        results := w.results ++ w.device.playing.toList.map (·, ok) }

/-- The queue tells of what was accepted, and of the turn unless it was cancelled. -/
structure Told (w : WatchedPlayback) : Prop where
  fates : w.accepted = w.fates.map Prod.fst ++ w.device.items.contents
  quiet : w.device.cancelled = true → w.device.items.contents = []
  turn : w.device.cancelled = false →
    w.turn = w.results.map Prod.fst ++ w.device.playing.toList ++ w.device.items.contents
  failed : w.device.cancelled = false → w.device.failed = w.results.any (!·.2)

section Rules
variable {w : WatchedPlayback}

theorem Told.enqueue (told : Told w) (text : List UInt8) : Told (w.step (.enqueue text)) := by
  simp only [step, LeVoicePlayback.enqueue]
  by_cases unfit : text = [] ∨ leVoiceReplySegmentMax ≤ text.length
  · simpa only [if_pos unfit, Bool.false_eq_true, if_false] using told
  by_cases closed : w.device.running = false ∨ w.device.cancelled = true
  · simpa only [if_neg unfit, if_pos closed, Bool.false_eq_true, if_false] using told
  by_cases room : w.device.items.count < leVoicePlaybackQueue
  · have open_ := Bool.eq_false_iff.mpr (not_or.mp closed).2
    simp only [if_neg unfit, if_neg closed, dif_pos room, if_true]
    refine ⟨?_, fun shut => ?_, fun _ => ?_, told.failed⟩
    · rw [told.fates, List.append_assoc, CircularQueue.contents_put]
    · exact absurd (open_.symm.trans shut) Bool.false_ne_true
    · rw [told.turn open_, List.append_assoc, CircularQueue.contents_put]
  · simpa only [if_neg unfit, if_neg closed, dif_neg room, Bool.false_eq_true, if_false] using told

theorem Told.beginTurn (told : Told w) : Told (w.step .beginTurn) := by
  simp only [step, LeVoicePlayback.beginTurn]
  by_cases idle : w.device.running = true ∧ w.device.pending = false
  · have silent := idle.2
    rw [LeVoicePlayback.pending, Bool.or_eq_false_iff] at silent
    have empty : w.device.items.contents = [] :=
      CircularQueue.contents_eq_nil.mpr (by simpa using silent.2)
    have none : w.device.playing = none := by simpa using silent.1
    simp only [if_pos idle, if_true]
    exact ⟨told.fates, fun _ => empty, fun _ => by simp [none, empty], fun _ => rfl⟩
  · simpa only [if_neg idle, Bool.false_eq_true, if_false] using told

theorem Told.cancel (told : Told w) : Told (w.step .cancel) := by
  refine ⟨?_, fun _ => rfl, by rintro ⟨⟩, by rintro ⟨⟩⟩
  simp only [step, LeVoicePlayback.cancel, CircularQueue.contents_clear, List.map_append,
    List.map_map, List.append_nil]
  rw [told.fates]
  simp [Function.comp_def]

theorem Told.workerTake (told : Told w) : Told (w.step .workerTake) := by
  simp only [step, LeVoicePlayback.workerTake]
  by_cases some : 0 < w.device.items.count
  · by_cases ready : w.device.running = true ∧ w.device.playing = none
    · have front := CircularQueue.contents_take w.device.items some
      simp only [dif_pos some, if_pos ready, if_pos ready.2, Option.toList_some, List.map_cons,
        List.map_nil]
      refine ⟨?_, fun shut => ?_, fun open_ => ?_, told.failed⟩
      · rw [told.fates, front, List.map_append, List.append_assoc]
        rfl
      · rw [told.quiet shut] at front
        cases front
      · rw [told.turn open_, ready.2, front, Option.toList_none, List.append_nil,
          List.append_assoc]
        rfl
    · simp only [dif_pos some, if_neg ready]
      by_cases silent : w.device.playing = none
      · simpa [silent] using told
      · simpa [silent] using told
  · simp only [dif_neg some]
    by_cases silent : w.device.playing = none
    · simpa [silent] using told
    · simpa [silent] using told

theorem Told.workerDone (told : Told w) (ok : Bool) : Told (w.step (.workerDone ok)) := by
  simp only [step, LeVoicePlayback.workerDone]
  cases playing : w.device.playing with
  | none => simpa [playing] using told
  | some text =>
      simp only [Option.isSome_some, if_true, Option.toList_some, List.map_cons, List.map_nil]
      refine ⟨told.fates, told.quiet, fun open_ => ?_, fun open_ => ?_⟩
      · rw [told.turn open_, playing]
        simp
      · simp only at open_
        rw [told.failed open_, open_]
        simp

theorem Told.step (told : Told w) (s : PlaybackStep) : Told (w.step s) := by
  cases s with
  | enqueue text => exact told.enqueue text
  | beginTurn => exact told.beginTurn
  | cancel => exact told.cancel
  | stop => exact ⟨told.fates, told.quiet, told.turn, told.failed⟩
  | workerTake => exact told.workerTake
  | workerDone ok => exact told.workerDone ok

theorem Told.spoken (told : Told w) (running : w.device.running = true)
    (open_ : w.device.cancelled = false) (waited : w.device.waitIdle = some true) :
    w.results = w.turn.map (·, true) := by
  rw [LeVoicePlayback.waitIdle] at waited
  split at waited
  case isTrue => cases waited
  case isFalse idle =>
    have silent := Bool.eq_false_iff.mpr (not_and.mp idle running)
    rw [LeVoicePlayback.pending, Bool.or_eq_false_iff] at silent
    have empty : w.device.items.contents = [] :=
      CircularQueue.contents_eq_nil.mpr (by simpa using silent.2)
    have none : w.device.playing = none := by simpa using silent.1
    have good : w.results.any (!·.2) = false := by
      rw [← told.failed open_]
      simpa using Option.some.inj waited
    rw [told.turn open_, none, empty, Option.toList_none, List.append_nil, List.append_nil,
      List.map_map]
    refine (List.map_id' _).symm.trans (List.map_congr_left fun r inside => ?_)
    have fine := List.any_eq_false.mp good r inside
    exact Prod.ext rfl (by simpa using fine)

end Rules
end WatchedPlayback

/--
Whatever the callers and the worker do in whatever order, each accepted text is played or
dropped once, in the order of acceptance, or waits; after a cancel no play begins until a new
turn; and a turn reported as spoken was played whole, in order and without a failure.
-/
theorem voicePlayback_law (steps : List PlaybackStep) :
    let w := Runs.run WatchedPlayback.step {} steps
    w.accepted = w.fates.map Prod.fst ++ w.device.items.contents ∧
    (w.device.cancelled = true → w.device.workerTake = w.device) ∧
    (w.device.running = true → w.device.cancelled = false → w.device.waitIdle = some true →
      w.results = w.turn.map (·, true)) := by
  intro w
  have told : WatchedPlayback.Told w :=
    Runs.run_invariant_always WatchedPlayback.step (fun _ s told => told.step s)
      ⟨rfl, fun _ => rfl, fun _ => rfl, fun _ => rfl⟩ steps
  refine ⟨told.fates, fun shut => ?_, told.spoken⟩
  have none := CircularQueue.contents_eq_nil.mp (told.quiet shut)
  rw [LeVoicePlayback.workerTake, dif_neg (by omega)]

end LibreEcho.Voice
