import LibreEcho.Lib.Runs

/-!
How `adapter/capture_mux.c` puts recordings in the place of the microphones.

The renderer of the array is arbitrary: it is fed samples and gives the lane of each
microphone. What is written is asked for as `voice_dsp.c` unpacks it in micd.
-/
namespace LibreEcho.Mic

def channels : Nat := 9

def period : Nat := 640

def leArrayRenderMics : Nat := 7

structure ArrayRender (ρ : Type*) where
  init : ρ
  push : ρ → Int16 → ρ
  /-- A lane of `le_array_render_lane`, rounded by `lrintf`. -/
  lane : ρ → Nat → Int

def saturateS16 (value : Int) : Int16 :=
  .ofInt (if 32767 < value then 32767 else if value < -32768 then -32768 else value)

def put24 (sample : Int16) : List UInt8 :=
  let value := sample.toInt * 256
  [.ofNat (value % 256).toNat, .ofNat (value / 256 % 256).toNat,
    .ofNat (value / 65536 % 256).toNat]

def leVoiceUnpackS24 (low middle high : UInt8) : Int16 :=
  let value : Int := low.toNat + middle.toNat * 256 + high.toNat * 65536
  let value := if 0x800000 ≤ value then value - 0x1000000 else value
  saturateS16 (value / 256)

def unpackAll : List UInt8 → List Int16
  | low :: middle :: high :: rest => leVoiceUnpackS24 low middle high :: unpackAll rest
  | _ => []

/-- A period that the capture binary gave, and how the two calls for a new injection go. -/
structure Period where
  passthrough : List UInt8
  whole : passthrough.length = period * channels * 3
  renamed : Bool
  opened : Bool

variable {ρ : Type*} (r : ArrayRender ρ)

def laneWords (render : ρ) : List Int16 :=
  (List.range channels).map fun c =>
    if c < leArrayRenderMics then saturateS16 (r.lane render c) else 0

def renderFrame (render : ρ) : List Int16 → ρ × List UInt8
  | [] => (render, [])
  | sample :: mono =>
      let render := r.push render sample
      let rest := renderFrame render mono
      (rest.1, (laneWords r render).flatMap put24 ++ rest.2)

structure Mux (ρ : Type*) where
  render : ρ
  /-- The samples of `pending.raw`. -/
  pending : Option (List Int16) := none
  /-- What is unread of `active.raw`. -/
  injected : Option (List Int16) := none

namespace Mux

def pickUp (mux : Mux ρ) (p : Period) : Mux ρ :=
  match mux.injected, mux.pending with
  | none, some recording =>
      if p.renamed then
        { mux with pending := none, injected := if p.opened then some recording else none }
      else mux
  | _, _ => mux

/-- What `fread` gets for the period, filled up with silence. -/
def mono (mux : Mux ρ) : List Int16 :=
  match mux.injected with
  | some (sample :: rest) =>
      let got := (sample :: rest).take period
      got ++ List.replicate (period - got.length) 0
  | _ => []

/-- The loop of `main` from a whole read on, with what it writes. -/
def forward (mux : Mux ρ) (p : Period) : Mux ρ × List UInt8 :=
  match (mux.pickUp p).injected with
  | none => (mux.pickUp p, p.passthrough)
  | some [] => ({ mux.pickUp p with injected := none }, p.passthrough)
  | some (sample :: rest) =>
      let frame := renderFrame r (mux.pickUp p).render (mux.pickUp p).mono
      ({ mux.pickUp p with
          render := frame.1, injected := some ((sample :: rest).drop period) }, frame.2)

end Mux

inductive MuxEvent where
  /-- A finished recording is renamed to `pending.raw`. -/
  | upload (recording : List Int16)
  | capture (p : Period)

/-- What was written for a period that was read, and the samples that took its place. -/
structure Written where
  read : Period
  bytes : List UInt8
  mono : List Int16

structure Muxed (ρ : Type*) where
  mux : Mux ρ
  uploads : List (List Int16) := []
  /-- Renamed over, or not to be opened. -/
  lost : List (List Int16) := []
  taken : List (List Int16) := []
  out : List Written := []

namespace Muxed

def start : Muxed ρ := { mux := { render := r.init } }

/-- The recording that a period finds in `pending.raw`. -/
def found (w : Muxed ρ) (p : Period) : List (List Int16) :=
  if w.mux.injected = none ∧ p.renamed = true then w.mux.pending.toList else []

def step (w : Muxed ρ) : MuxEvent → Muxed ρ
  | .upload recording =>
      { w with
        mux := { w.mux with pending := some recording }
        uploads := w.uploads ++ [recording]
        lost := w.lost ++ w.mux.pending.toList }
  | .capture p =>
      let written := w.mux.forward r p
      { w with
        mux := written.1
        lost := if p.opened then w.lost else w.lost ++ w.found p
        taken := if p.opened then w.taken ++ w.found p else w.taken
        out := w.out ++ [⟨p, written.2, (w.mux.pickUp p).mono⟩] }

def injectedSamples (out : List Written) : List Int16 := out.flatMap Written.mono

end Muxed

def padded (recording : List Int16) : List Int16 :=
  recording ++ List.replicate ((period - recording.length % period) % period) 0

/-- The words of the array that hears `mono` after `before`. -/
def heard (before mono : List Int16) : List Int16 :=
  (List.range mono.length).flatMap fun i =>
    laneWords r ((before ++ mono.take (i + 1)).foldl r.push r.init)

/-- Each period is the codec's own, or what the array hears of the recordings' next samples. -/
inductive Faithful : List Written → Prop
  | nil : Faithful []
  | codec {out : List Written} {o : Written} (before : Faithful out) (mono : o.mono = [])
      (bytes : o.bytes = o.read.passthrough) : Faithful (out ++ [o])
  | injected {out : List Written} {o : Written} (before : Faithful out)
      (mono : o.mono.length = period) (length : o.bytes.length = period * channels * 3)
      (words : unpackAll o.bytes = heard r (Muxed.injectedSamples out) o.mono) :
      Faithful (out ++ [o])

/-! ### The words of a period -/

theorem saturateS16_toInt (sample : Int16) : saturateS16 sample.toInt = sample := by
  have low : -32768 ≤ sample.toInt := sample.le_toInt
  have high : sample.toInt ≤ 32767 := sample.toInt_le
  rw [saturateS16, if_neg (by omega), if_neg (by omega), Int16.ofInt_toInt]

theorem unpack_put24 (sample : Int16) (rest : List UInt8) :
    unpackAll (put24 sample ++ rest) = sample :: unpackAll rest := by
  have low : -32768 ≤ sample.toInt := sample.le_toInt
  have high : sample.toInt ≤ 32767 := sample.toInt_le
  refine congrArg (· :: unpackAll rest) ?_
  refine Eq.trans (congrArg saturateS16 ?_) (saturateS16_toInt sample)
  simp only [UInt8.toNat_ofNat']
  split <;> omega

theorem unpackAll_words (words : List Int16) (rest : List UInt8) :
    unpackAll (words.flatMap put24 ++ rest) = words ++ unpackAll rest := by
  induction words with
  | nil => rfl
  | cons word words ih =>
      rw [List.flatMap_cons, List.append_assoc, unpack_put24, ih, List.cons_append]

theorem renderFrame_render (render : ρ) (mono : List Int16) :
    (renderFrame r render mono).1 = mono.foldl r.push render := by
  induction mono generalizing render with
  | nil => rfl
  | cons sample mono ih => rw [renderFrame, ih, List.foldl_cons]

theorem renderFrame_words (render : ρ) (mono : List Int16) :
    unpackAll (renderFrame r render mono).2 =
      (List.range mono.length).flatMap fun i =>
        laneWords r ((mono.take (i + 1)).foldl r.push render) := by
  induction mono generalizing render with
  | nil => rfl
  | cons sample mono ih =>
      rw [renderFrame, unpackAll_words, ih, List.length_cons, List.range_succ_eq_map,
        List.flatMap_cons, List.flatMap_map]
      rfl

theorem renderFrame_length (render : ρ) (mono : List Int16) :
    (renderFrame r render mono).2.length = mono.length * channels * 3 := by
  have words (l : List Int16) : (l.flatMap put24).length = l.length * 3 := by
    induction l with
    | nil => rfl
    | cons word l ih =>
        rw [List.flatMap_cons, List.length_append, ih, List.length_cons, Nat.succ_mul, Nat.add_comm]
        rfl
  induction mono generalizing render with
  | nil => rfl
  | cons sample mono ih =>
      rw [renderFrame, List.length_append, ih, words, laneWords, List.length_map,
        List.length_range, List.length_cons, Nat.succ_mul, Nat.add_mul, Nat.add_comm]

theorem padded_nil : padded [] = [] := rfl

theorem padded_mono (mux : Mux ρ) {sample : Int16} {rest : List Int16}
    (playing : mux.injected = some (sample :: rest)) :
    mux.mono.length = period ∧
      mux.mono ++ padded ((sample :: rest).drop period) = padded (sample :: rest) := by
  rw [Mux.mono, playing]
  dsimp only
  have some : 0 < (sample :: rest).length := Nat.succ_pos _
  generalize sample :: rest = left at some ⊢
  refine ⟨?_, ?_⟩
  · rw [List.length_append, List.length_replicate, List.length_take]
    omega
  by_cases short : left.length < period
  · have fill : (period - left.length % period) % period = period - left.length := by
      rw [Nat.mod_eq_of_lt short]
      exact Nat.mod_eq_of_lt (Nat.sub_lt (by decide) some)
    rw [List.take_of_length_le short.le, List.drop_eq_nil_of_le short.le, padded_nil,
      List.append_nil, padded, fill]
  · have full : (left.take period).length = period := by
      rw [List.length_take]
      omega
    have tail : (left.drop period).length % period = left.length % period := by
      rw [List.length_drop, ← Nat.mod_eq_sub_mod (Nat.not_lt.mp short)]
    rw [full, Nat.sub_self, List.replicate_zero, List.append_nil, padded, padded, tail,
      ← List.append_assoc, List.take_append_drop]

/-! ### A run of the mux -/

namespace Muxed

structure Sound (w : Muxed ρ) : Prop where
  faithful : Faithful r w.out
  render : w.mux.render = (injectedSamples w.out).foldl r.push r.init
  playing : injectedSamples w.out ++ padded (w.mux.injected.getD []) = w.taken.flatMap padded
  order : (w.taken ++ w.mux.pending.toList).Sublist w.uploads
  once : (w.taken ++ w.lost ++ w.mux.pending.toList).Perm w.uploads

theorem start_sound : (start r).Sound r where
  faithful := .nil
  render := rfl
  playing := by
    simp only [start, injectedSamples, Option.getD_none, padded_nil, List.flatMap_nil,
      List.append_nil]
  order := List.Sublist.refl []
  once := List.Perm.refl []

theorem upload_sound {w : Muxed ρ} (sound : w.Sound r) (recording : List Int16) :
    (w.step r (.upload recording)).Sound r where
  faithful := sound.faithful
  render := sound.render
  playing := sound.playing
  order := ((List.sublist_append_left _ _).trans sound.order).append (List.Sublist.refl _)
  once := by
    refine List.Perm.trans ?_ (sound.once.append_right [recording])
    simp only [step, Option.toList, List.append_assoc]
    exact List.Perm.refl _

theorem pickUp_render (mux : Mux ρ) (p : Period) : (mux.pickUp p).render = mux.render := by
  rw [Mux.pickUp]
  split
  · split <;> rfl
  · rfl

theorem pickUp_sound {w : Muxed ρ} (sound : w.Sound r) (p : Period) :
    let taken := if p.opened then w.taken ++ w.found p else w.taken
    let lost := if p.opened then w.lost else w.lost ++ w.found p
    injectedSamples w.out ++ padded ((w.mux.pickUp p).injected.getD []) = taken.flatMap padded ∧
      (taken ++ (w.mux.pickUp p).pending.toList).Sublist w.uploads ∧
      (taken ++ lost ++ (w.mux.pickUp p).pending.toList).Perm w.uploads := by
  have playing := sound.playing
  have order := sound.order
  have once := sound.once
  simp only [found, Mux.pickUp]
  cases injected : w.mux.injected with
  | some left =>
      rw [injected] at playing
      simp only [reduceCtorEq, false_and, if_false, List.append_nil, ite_self, injected]
      exact ⟨playing, order, once⟩
  | none =>
      rw [injected] at playing
      cases pending : w.mux.pending with
      | none =>
          rw [pending] at order once
          simp only [Option.toList_none, List.append_nil, ite_self, injected, pending]
            at order once ⊢
          exact ⟨playing, order, once⟩
      | some recording =>
          rw [pending] at order once
          rw [Option.getD_none, padded_nil, List.append_nil] at playing
          by_cases renamed : p.renamed = true
          case neg =>
            simp only [renamed, Bool.false_eq_true, and_false, if_false, List.append_nil, ite_self,
              injected, pending, Option.getD_none, padded_nil]
            exact ⟨playing, order, once⟩
          case pos =>
            have moved : (w.lost ++ [recording]).Perm ([recording] ++ w.lost) :=
              List.perm_append_comm
            simp only [renamed, and_self, if_true, Option.toList_some, Option.toList_none,
              List.append_nil] at order once ⊢
            by_cases opened : p.opened = true
            · simp only [opened, if_true, Option.getD_some, List.flatMap_append,
                List.flatMap_singleton, playing]
              refine ⟨trivial, order, List.Perm.trans ?_ once⟩
              rw [List.append_assoc, List.append_assoc]
              exact moved.symm.append_left _
            · simp only [opened, Bool.false_eq_true, if_false, Option.getD_none, padded_nil,
                List.append_nil]
              refine ⟨playing, (List.sublist_append_left _ _).trans order, ?_⟩
              rwa [← List.append_assoc]

theorem forward_spec (mux : Mux ρ) (p : Period) :
    let after := mux.pickUp p
    (mux.forward r p).1.pending = after.pending ∧
      (mux.forward r p).1.render = after.mono.foldl r.push after.render ∧
      after.mono ++ padded ((mux.forward r p).1.injected.getD []) =
        padded (after.injected.getD []) ∧
      (after.mono = [] ∧ (mux.forward r p).2 = p.passthrough ∨
        after.mono.length = period ∧
          (mux.forward r p).2 = (renderFrame r after.render after.mono).2) := by
  dsimp only
  rw [Mux.forward]
  generalize mux.pickUp p = after
  cases injected : after.injected with
  | none =>
      have mono : after.mono = [] := by rw [Mux.mono, injected]
      rw [mono]
      exact ⟨rfl, rfl, by rw [List.nil_append, injected], .inl ⟨rfl, rfl⟩⟩
  | some left =>
      cases left with
      | nil =>
          have mono : after.mono = [] := by rw [Mux.mono, injected]
          rw [mono]
          exact ⟨rfl, rfl, List.nil_append _, .inl ⟨rfl, rfl⟩⟩
      | cons sample rest =>
          obtain ⟨length, whole⟩ := padded_mono after injected
          exact ⟨rfl, renderFrame_render r _ _, whole, .inr ⟨length, rfl⟩⟩

theorem capture_sound {w : Muxed ρ} (sound : w.Sound r) (p : Period) :
    (w.step r (.capture p)).Sound r := by
  obtain ⟨playing, order, once⟩ := pickUp_sound r sound p
  obtain ⟨pending, render, left, written⟩ := forward_spec r w.mux p
  have samples : injectedSamples (w.step r (.capture p)).out =
      injectedSamples w.out ++ (w.mux.pickUp p).mono := by
    simp only [injectedSamples, step, List.flatMap_append, List.flatMap_singleton]
  rw [pickUp_render, sound.render] at render
  constructor
  case faithful =>
    obtain ⟨mono, bytes⟩ | ⟨mono, bytes⟩ := written
    · exact .codec sound.faithful mono bytes
    · rw [pickUp_render, sound.render] at bytes
      refine .injected sound.faithful mono ?_ ?_
      · rw [bytes, renderFrame_length, mono]
      · simp only [bytes, renderFrame_words, heard, List.foldl_append]
  case render =>
    rw [samples, List.foldl_append]
    exact render
  case playing =>
    rw [samples, List.append_assoc]
    exact (congrArg _ left).trans playing
  case order => exact pending ▸ order
  case once => exact pending ▸ once

theorem run_sound (events : List MuxEvent) :
    (Runs.run (step r) (start r) events).Sound r := by
  refine Runs.run_invariant_always (step r) (fun w event sound => ?_) (start_sound r) events
  cases event with
  | upload recording => exact upload_sound r sound recording
  | capture p => exact capture_sound r sound p

end Muxed

theorem Faithful.length {out : List Written} (faithful : Faithful r out) :
    ∀ o ∈ out, o.bytes.length = period * channels * 3 := by
  induction faithful with
  | nil => simp
  | @codec out o before mono bytes ih =>
      have last : o.bytes.length = period * channels * 3 := bytes ▸ o.read.whole
      simpa [or_imp, forall_and, last] using ih
  | @injected out o before mono length words ih =>
      simpa [or_imp, forall_and, length] using ih

def MuxEvent.uploaded : MuxEvent → List (List Int16)
  | upload recording => [recording]
  | capture _ => []

def MuxEvent.read : MuxEvent → List Period
  | upload _ => []
  | capture p => [p]

theorem run_events (events : List MuxEvent) (w : Muxed ρ) :
    (Runs.run (Muxed.step r) w events).uploads = w.uploads ++ events.flatMap MuxEvent.uploaded ∧
      (Runs.run (Muxed.step r) w events).out.map Written.read =
        w.out.map Written.read ++ events.flatMap MuxEvent.read := by
  induction events generalizing w with
  | nil => simp
  | cons event events ih =>
      obtain ⟨uploads, out⟩ := ih (w.step r event)
      rw [Runs.run_cons, uploads, out]
      cases event with
      | upload recording => simp [Muxed.step, MuxEvent.uploaded, MuxEvent.read]
      | capture p => simp [Muxed.step, MuxEvent.uploaded, MuxEvent.read]

/--
Over every run, each period that is read is answered by one of the same size: the codec's
own, or what the array hears of the recordings. These are played one behind the other, each
whole and filled up with silence to the end of its last period; and an upload is played once
and in order, unless another replaced it or it could not be opened.
-/
theorem captureMux_law (events : List MuxEvent) :
    let w := Runs.run (Muxed.step r) (Muxed.start r) events
    w.out.map Written.read = events.flatMap MuxEvent.read ∧
      (∀ o ∈ w.out, o.bytes.length = period * channels * 3) ∧ Faithful r w.out ∧
      Muxed.injectedSamples w.out ++ padded (w.mux.injected.getD []) = w.taken.flatMap padded ∧
      (w.taken ++ w.mux.pending.toList).Sublist (events.flatMap MuxEvent.uploaded) ∧
      (w.taken ++ w.lost ++ w.mux.pending.toList).Perm (events.flatMap MuxEvent.uploaded) := by
  obtain ⟨uploads, read⟩ := run_events r events (Muxed.start r)
  have sound := Muxed.run_sound r events
  have order := sound.order
  have once := sound.once
  rw [uploads] at order once
  exact ⟨read, sound.faithful.length, sound.faithful, sound.playing, order, once⟩

end LibreEcho.Mic
