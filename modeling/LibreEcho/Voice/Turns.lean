import LibreEcho.Lib.Runs
import LibreEcho.Voice.Pipeline

/-!
Every announced turn ends once.

A listener of the callbacks keeps the turn that is announced and not over, and those that
are over. In every round that keeps it right, that turn is the recognition in progress.
-/
namespace LibreEcho.Voice

/-! ### A listener -/

structure Turns where
  current : Option UInt64
  ended : List UInt64
  wrong : Bool
deriving DecidableEq, Repr

def endings : List Int :=
  [leVoiceTurnSttFailed, leVoiceTurnCancelled, leVoiceTurnTimedOut]

namespace Turns
variable (t : Turns)

def finish (id : UInt64) : Turns :=
  if t.current = some id then { t with current := none, ended := id :: t.ended }
  else { t with wrong := true }

/--
An outcome belongs to the turn of its sample. One of a sample that was never announced is
that of a wake event that started no turn.
-/
def hear : Emitted → Turns
  | .turnBegin id => { t with current := some id, wrong := t.wrong || t.current.isSome }
  | .transcript _ turn => t.finish turn.detectionSample
  | .outcome o =>
      if o.status ∉ endings then { t with wrong := true }
      else if t.current = some o.detectionSample ∨ o.detectionSample ∈ t.ended then
        t.finish o.detectionSample
      else t

def Unknown (id : UInt64) : Prop :=
  t.current ≠ some id ∧ id ∉ t.ended

instance (id : UInt64) : Decidable (t.Unknown id) :=
  inferInstanceAs (Decidable (_ ∧ _))

end Turns

def turnsOf (emitted : List Emitted) : Turns :=
  emitted.foldl Turns.hear ⟨none, [], false⟩

namespace Capture
variable (s : Capture)

def turns : Turns :=
  turnsOf s.emitted

/--
No turn was announced before the last one was over, none ended twice, and one that is not
over is being recognised, unless the pipeline is being stopped.
-/
def EndsOnce : Prop :=
  s.turns.wrong = false ∧ (s.turns.current ≠ none → s.sttFd = true ∨ s.left = some true)

instance : Decidable s.EndsOnce :=
  inferInstanceAs (Decidable (_ ∧ _))

/-! ### The condition -/

/-- Audio is written to the recogniser and that fails for no reason that is waited out. -/
def writeFails : AudioReady → Bool
  | .input (some frame) .otherError => s.sttFd && s.reaches frame
  | _ => false

def dropped (r : Round) : WakeReady → Option UInt64
  | .input (some line) =>
      if r.wakeShared.dispatching ∨ r.wakeShared.transcriptPending ∨ s.sttFd then
        detection (CText.ofBuffer line)
      else none
  | _ => none

def broken : AudioReady → Bool
  | .input none _ => true
  | _ => false

def PollKept (r : Round) : Poll → Prop
  | .interrupted => True
  | .failed => s.sttFd = false
  | .ready wake audio stt =>
      wake ≠ .gone → audio ≠ .gone → (s.sttFd = true → stt ≠ .gone) →
        s.writeFails audio = false ∧
          (broken audio = false → ∀ sample, s.dropped r wake = some sample →
            s.turns.Unknown sample)

/--
While something is recognised, polling does not fail and neither does a write to the
recogniser, but for those that the loop waits out; and no wake event is dropped that has
the sample of a turn.
-/
def Kept (r : Round) : Prop :=
  s.left = none → r.running = true → (s.wakeFd || r.wakeSubscribed) = true →
    (s.audioFd || r.audioSubscribed) = true → s.PollKept r r.poll

instance (dropped : Option UInt64) :
    Decidable (∀ sample, dropped = some sample → s.turns.Unknown sample) :=
  match dropped with
  | none => isTrue nofun
  | some sample => decidable_of_iff (s.turns.Unknown sample)
      ⟨fun unknown _ same => Option.some.inj same ▸ unknown, fun all => all sample rfl⟩

instance (r : Round) (poll : Poll) : Decidable (s.PollKept r poll) :=
  match poll with
  | .interrupted => isTrue trivial
  | .failed => inferInstanceAs (Decidable (s.sttFd = false))
  | .ready .. => inferInstanceAs (Decidable (_ → _ → _ → _ ∧ _))

instance (r : Round) : Decidable (s.Kept r) :=
  inferInstanceAs (Decidable (_ → _ → _ → _ → _))

variable {s}

/-! ### What the callbacks hear -/

theorem turns_emit (e : Emitted) : (s.emit e).turns = s.turns.hear e := by
  unfold turns turnsOf emit
  rw [List.foldl_append]
  rfl

/-- The turn that is announced and not over is the recognition in progress. -/
structure Sound (s : Capture) : Prop where
  right : s.turns.wrong = false
  current : s.turns.current = if s.sttFd then some s.detectionSample else none
  active : s.sttFd = true → s.recognitionActive = true

def start : Capture := {}

theorem Sound.start : start.Sound :=
  ⟨rfl, rfl, nofun⟩

theorem Sound.endTurn (sound : s.Sound) (recognizing : s.sttFd = true) {status : Int}
    (ending : status ∈ endings) : (s.endTurn status).closeRecognition.Sound := by
  have current := sound.current
  rw [if_pos recognizing] at current
  have heard : (s.endTurn status).turns =
      { s.turns with current := none, ended := s.detectionSample :: s.turns.ended } := by
    unfold Capture.endTurn
    rw [if_pos (sound.active recognizing)]
    refine (turns_emit _).trans ?_
    unfold Turns.hear
    dsimp only
    rw [if_neg (not_not_intro ending), if_pos (.inl current), Turns.finish, if_pos current]
  refine ⟨?_, ?_, nofun⟩
  · change (s.endTurn status).turns.wrong = false
    rw [heard]
    exact sound.right
  · change (s.endTurn status).turns.current = none
    rw [heard]

theorem Sound.queued (sound : s.Sound) (recognizing : s.sttFd = true) (text : Bytes)
    {turn : LeVoicePipelineTurn} (same : turn.detectionSample = s.detectionSample) :
    { s.emit (.transcript text turn) with recognitionActive := false }.closeRecognition.Sound := by
  have current := sound.current
  rw [if_pos recognizing] at current
  have heard : (s.emit (.transcript text turn)).turns =
      { s.turns with current := none, ended := s.detectionSample :: s.turns.ended } := by
    rw [turns_emit]
    unfold Turns.hear
    dsimp only
    rw [same, Turns.finish, if_pos current]
  refine ⟨?_, ?_, nofun⟩
  · change (s.emit (.transcript text turn)).turns.wrong = false
    rw [heard]
    exact sound.right
  · change (s.emit (.transcript text turn)).turns.current = none
    rw [heard]

theorem Sound.startTurn (sound : s.Sound) (closed : s.sttFd = false) (sample : UInt64)
    (followUp : Bool) (nowMs : UInt64) (recognizer : Recognizer) :
    (s.startTurn sample followUp nowMs recognizer).Sound := by
  have idle := sound.current
  rw [closed] at idle
  have announced : s.turns.hear (.turnBegin sample) = { s.turns with current := some sample } := by
    unfold Turns.hear
    dsimp only
    rw [idle, sound.right]
    rfl
  have refused : ({ s.turns with current := some sample : Turns }).hear
      (.outcome ⟨leVoiceTurnSttFailed, followUp, sample, 0, 0, 0⟩) =
        { s.turns with current := none, ended := sample :: s.turns.ended } := by
    unfold Turns.hear
    dsimp only
    rw [if_neg (by decide), if_pos (.inl rfl), Turns.finish, if_pos rfl]
  have begun (t : Capture) (same : t.emitted = s.emitted ++ [.turnBegin sample]) :
      t.turns = { s.turns with current := some sample } := by
    rw [turns, same, ← announced, ← turns_emit]
    rfl
  have failed (t : Capture) (same : t.emitted = s.emitted ++ [.turnBegin sample] ++
      [.outcome ⟨leVoiceTurnSttFailed, followUp, sample, 0, 0, 0⟩]) (gone : t.sttFd = false) :
      t.Sound := by
    have heard : t.turns =
        { s.turns with current := none, ended := sample :: s.turns.ended } := by
      rw [← refused, ← begun { s with emitted := s.emitted ++ [.turnBegin sample] } rfl, turns,
        same, ← turns_emit]
      rfl
    refine ⟨?_, ?_, fun there => ?_⟩
    · rw [heard]
      exact sound.right
    · rw [heard, gone]
      rfl
    · rw [gone] at there
      cases there
  unfold Capture.startTurn startRecognition
  cases recognizer with
  | refused =>
      dsimp only [emit]
      rw [closed]
      exact failed _ rfl rfl
  | unwritten =>
      dsimp only [emit]
      rw [closed]
      exact failed _ rfl rfl
  | listening =>
      dsimp only [emit]
      rw [if_pos rfl]
      have heard := begun
        { s with emitted := s.emitted ++ [.turnBegin sample] } rfl
      refine ⟨?_, ?_, fun _ => rfl⟩
      · exact (congrArg Turns.wrong heard).trans sound.right
      · exact congrArg Turns.current heard

/-! ### The stages -/

theorem andThen_sound {stage : Stage} {more : Capture → Capture} (sound : stage.1.Sound)
    (goes_on : stage.2 = true → (more stage.1).Sound) : (stage.andThen more).Sound := by
  unfold Stage.andThen
  split
  case isTrue on => exact goes_on on
  case isFalse => exact sound

theorem ringAppend_same (frame : Frame) :
    (s.ringAppend frame).sttFd = s.sttFd ∧ (s.ringAppend frame).emitted = s.emitted ∧
      (s.ringAppend frame).detectionSample = s.detectionSample ∧
      (s.ringAppend frame).recognitionActive = s.recognitionActive := by
  unfold ringAppend
  exact ⟨rfl, rfl, rfl, rfl⟩

theorem Sound.same {t : Capture} (sound : s.Sound) (sttFd : t.sttFd = s.sttFd)
    (emitted : t.emitted = s.emitted) (sample : t.detectionSample = s.detectionSample)
    (active : t.recognitionActive = s.recognitionActive) : t.Sound := by
  have turns : t.turns = s.turns := congrArg turnsOf emitted
  refine ⟨turns ▸ sound.right, ?_, fun there => ?_⟩
  · rw [turns, sttFd, sample]
    exact sound.current
  · rw [active]
    exact sound.active (sttFd ▸ there)

theorem hearAudio_same {audio : AudioReady} (written : s.writeFails audio = false) :
    (s.hearAudio audio).1.sttFd = s.sttFd ∧ (s.hearAudio audio).1.emitted = s.emitted ∧
      (s.hearAudio audio).1.detectionSample = s.detectionSample ∧
      (s.hearAudio audio).1.recognitionActive = s.recognitionActive := by
  unfold Capture.hearAudio
  split
  case h_1 | h_2 | h_3 => exact ⟨rfl, rfl, rfl, rfl⟩
  case h_4 frame result =>
    dsimp only
    rw [if_neg]
    · exact ringAppend_same frame
    · rintro ⟨there, reaches, rfl⟩
      rw [(ringAppend_same frame).1] at there
      unfold Capture.reaches at reaches
      rw [(ringAppend_same frame).2.2.1] at reaches
      unfold writeFails at written
      dsimp only at written
      rw [there, Bool.true_and] at written
      exact absurd (written.symm.trans reaches) (by rintro ⟨⟩)

theorem Sound.hearAudio (sound : s.Sound) {audio : AudioReady}
    (written : s.writeFails audio = false) : (s.hearAudio audio).1.Sound :=
  have ⟨sttFd, emitted, sample, active⟩ := hearAudio_same written
  sound.same sttFd emitted sample active

theorem Sound.hearWake (sound : s.Sound) {r : Round} {wake : WakeReady}
    (unknown : ∀ sample, s.dropped r wake = some sample → s.turns.Unknown sample) :
    (s.hearWake r wake).1.Sound := by
  unfold Capture.hearWake
  split
  case h_1 | h_2 => exact sound
  case h_3 => exact ⟨sound.right, sound.current, sound.active⟩
  case h_4 line =>
    cases detected : detection (CText.ofBuffer line) with
    | none => exact sound
    | some sample =>
        dsimp only
        split
        case isTrue busy =>
          obtain ⟨other, fresh⟩ := unknown sample (by rw [dropped, if_pos busy, detected])
          have heard : (s.emitOutcome leVoiceTurnCancelled sample false 0 0 0).turns = s.turns := by
            refine (turns_emit _).trans ?_
            unfold Turns.hear
            dsimp only
            rw [if_neg (by decide), if_neg (not_or.mpr ⟨other, fresh⟩)]
          exact ⟨heard ▸ sound.right, heard ▸ sound.current, sound.active⟩
        case isFalse free =>
          refine sound.startTurn ?_ _ _ _ _
          exact Bool.eq_false_iff.mpr fun there => free (.inr (.inr there))

theorem Sound.hearStt (sound : s.Sound) (r : Round) (stt : SttReady) :
    (s.hearStt r stt).1.Sound := by
  unfold Capture.hearStt
  split
  case h_1 | h_2 => exact sound
  case h_3 reads =>
    split
    case isTrue => exact sound
    case isFalse open_ =>
      have there : s.sttFd = true := by simpa using open_
      split
      case h_1 => exact sound.endTurn there (by decide)
      case h_2 used => exact ⟨sound.right, sound.current, sound.active⟩
      case h_3 text =>
        have cleared : { s with sttLine := [] : Capture }.Sound :=
          ⟨sound.right, sound.current, sound.active⟩
        dsimp only
        split
        case h_1 => exact cleared
        case h_2 => exact cleared.endTurn there (by decide)
        case h_3 => exact cleared.endTurn there (by decide)
        case h_4 words turn handled =>
          refine cleared.queued there words ?_
          unfold handleSttLine at handled
          split at handled
          case isTrue => cases handled
          case isFalse =>
            split at handled
            case h_1 | h_2 => cases handled
            case h_3 =>
              dsimp only at handled
              split at handled
              case isTrue => cases handled
              case isFalse =>
                split at handled
                case isTrue => cases handled
                case isFalse =>
                  cases handled
                  rfl

theorem Sound.checkDeadline (sound : s.Sound) (timeoutMs nowMs : UInt64) :
    (s.checkDeadline timeoutMs nowMs).Sound := by
  unfold Capture.checkDeadline
  split
  case isTrue late => exact sound.endTurn late.1 (by decide)
  case isFalse => exact sound

theorem Sound.followUp (sound : s.Sound) (r : Round) : (s.followUp r).Sound := by
  unfold Capture.followUp
  split
  case isTrue starts =>
    refine sound.startTurn ?_ _ _ _ _
    simpa using starts.1
  case isFalse => exact sound

theorem Sound.recognize (sound : s.Sound) (timeoutMs : UInt64) (r : Round) (stt : SttReady) :
    ((s.hearStt r stt).andThen fun s =>
      (s.checkDeadline timeoutMs r.checkedMs).followUp r).Sound :=
  andThen_sound (sound.hearStt r stt) fun _ =>
    ((sound.hearStt r stt).checkDeadline timeoutMs r.checkedMs).followUp r

theorem Sound.polled (sound : s.Sound) (timeoutMs : UInt64) {r : Round} {wake : WakeReady}
    {audio : AudioReady} {stt : SttReady} (kept : s.PollKept r (.ready wake audio stt)) :
    (s.polled timeoutMs r wake audio stt).Sound := by
  unfold Capture.polled
  dsimp only
  by_cases wakeGone : wake = .gone
  · rw [if_pos wakeGone]
    exact ⟨sound.right, sound.current, sound.active⟩
  · rw [if_neg wakeGone]
    by_cases audioGone : audio = .gone
    · rw [if_pos audioGone]
      exact ⟨sound.right, sound.current, sound.active⟩
    · rw [if_neg audioGone]
      have asked : (if s.sttFd = true then stt else SttReady.idle) = .gone →
          s.sttFd = true ∧ stt = .gone := by
        split
        case isTrue there => exact fun gone => ⟨there, gone⟩
        case isFalse => exact nofun
      have there_gone (there : s.sttFd = true) (gone : stt = .gone) :
          (if s.sttFd = true then stt else SttReady.idle) = .gone := by
        rw [if_pos there, gone]
      generalize (if s.sttFd = true then stt else SttReady.idle) = polledStt at asked there_gone ⊢
      by_cases gone : polledStt = .gone
      · rw [if_pos gone]
        exact sound.endTurn (asked gone).1 (by decide)
      · rw [if_neg gone]
        obtain ⟨written, unknown⟩ := kept wakeGone audioGone fun there same =>
          gone (there_gone there same)
        obtain ⟨sttFd, emitted, -⟩ := hearAudio_same written
        have heard := sound.hearAudio written
        refine andThen_sound heard fun goes_on => ?_
        have detected : ((s.hearAudio audio).1.hearWake r wake).1.Sound := by
          refine heard.hearWake fun sample drop => ?_
          have unbroken : broken audio = false := by
            by_contra none_read
            unfold broken at none_read
            split at none_read
            case h_1 => cases goes_on
            case h_2 => exact none_read rfl
          have known : s.dropped r wake = some sample := by
            rw [← drop]
            unfold dropped
            rw [sttFd]
          have turns : (s.hearAudio audio).1.turns = s.turns := congrArg turnsOf emitted
          rw [turns]
          exact unknown unbroken sample known
        exact andThen_sound detected fun _ => detected.recognize timeoutMs r polledStt

/-! ### Rounds and runs -/

/-- In the loop the listener is right; behind it a turn is open only when it was stopped. -/
def Settled (s : Capture) : Prop :=
  s.Sound ∨ ∃ stopping, s.left = some stopping ∧ s.turns.wrong = false ∧
    (s.turns.current ≠ none → stopping = true)

theorem Settled.endsOnce (settled : s.Settled) : s.EndsOnce := by
  obtain sound | ⟨stopping, left, right, opened⟩ := settled
  · refine ⟨sound.right, fun current => .inl ?_⟩
    by_contra closed
    rw [sound.current, if_neg closed] at current
    exact current rfl
  · exact ⟨right, fun current => .inr (by rw [left, opened current])⟩

theorem Sound.leave (sound : s.Sound) {stopping : Bool}
    (closed : stopping = false → s.sttFd = false) : (s.leave stopping).Settled := by
  refine .inr ⟨stopping, rfl, sound.right, fun opened => ?_⟩
  by_contra going
  have current : s.turns.current = none := by
    rw [sound.current, closed (Bool.eq_false_iff.mpr going)]
    rfl
  exact opened current

theorem Settled.round (settled : s.Settled) (timeoutMs : UInt64) {r : Round} (kept : s.Kept r) :
    (s.round timeoutMs r).Settled := by
  unfold Capture.round
  by_cases left : s.left = none
  · rw [if_neg (not_not_intro left)]
    have sound : s.Sound := by
      refine settled.resolve_right ?_
      rintro ⟨stopping, gone, -⟩
      rw [left] at gone
      cases gone
    by_cases running : r.running = true
    · rw [if_neg (by rw [running]; rintro ⟨⟩)]
      have connected : (s.connect r).Sound := ⟨sound.right, sound.current, sound.active⟩
      dsimp only
      split
      case isTrue => exact .inl connected
      case isFalse both =>
        simp only [not_or, Bool.not_eq_true', Bool.not_eq_false] at both
        have polled : s.PollKept r r.poll := kept left running both.1 both.2
        split
        case h_1 => exact .inl connected
        case h_2 failed =>
          rw [failed] at polled
          exact connected.leave fun _ => polled
        case h_3 wake audio stt ready =>
          rw [ready] at polled
          exact .inl (connected.polled timeoutMs polled)
    · rw [if_pos (by rw [Bool.not_eq_true] at running; rw [running]; rfl)]
      exact sound.leave (by rintro ⟨⟩)
  · rw [if_pos left]
    exact settled

/-- In every state of a run whose rounds meet the condition. -/
theorem run_endsOnce (timeoutMs : UInt64) (rounds : List Round)
    (kept : Runs.Admits (fun s r => round s timeoutMs r) Kept start rounds) :
    (Runs.run (fun s r => round s timeoutMs r) start rounds).EndsOnce :=
  have begun : start.Settled := .inl Sound.start
  have preserved : ∀ s r, Settled s → Kept s r → (round s timeoutMs r).Settled :=
    fun _ _ settled kept => settled.round timeoutMs kept
  (Runs.run_invariant _ preserved begun kept).endsOnce

/-! ### A lost turn -/

def wakeLine (sample : String) : CText :=
  "\x7b\"event\":\"wake_detected\",\"detection_sample\":".toList ++ sample.toList ++ "\x7d".toList

/-- A detection that the recogniser listens to, and audio behind it. -/
def detected (sample : String) (written : Written) : List Round :=
  [{ poll := .ready (.input (some (wakeLine sample))) .idle .idle
     wakeMs := 10
     wakeRecognizer := .listening
     checkedMs := 20 },
    { poll := .ready .idle (.input (some ⟨1000, 320⟩) written) .idle, checkedMs := 30 }]

def transcriptLine : List SttRead :=
  ("\x7b\"event\":\"transcript\",\"text\":\"hello\"\x7d\n".toList).map .byte

def heardTwice : List Round :=
  detected "100" .pipe ++ [{ poll := .ready .idle .idle (.input transcriptLine), checkedMs := 40 }] ++
    detected "2000" .all ++ [{ poll := .ready .idle .idle (.input transcriptLine), checkedMs := 40 }]

theorem run_endsOnce_heard :
    (Runs.run (fun s r => round s recognitionTimeoutMs r) start heardTwice).EndsOnce ∧
      (Runs.run (fun s r => round s recognitionTimeoutMs r) start heardTwice).turns =
        ⟨none, [2000, 100], false⟩ :=
  ⟨run_endsOnce recognitionTimeoutMs heardTwice (by decide +kernel), by decide +kernel⟩

/-- A write fails with another error: the turn is dropped, and the next one is announced. -/
theorem run_endsOnce_lost :
    ¬(Runs.run (fun s r => round s recognitionTimeoutMs r) start
        (detected "100" .otherError ++ detected "2000" .all)).EndsOnce ∧
      (Runs.run (fun s r => round s recognitionTimeoutMs r) start
        (detected "100" .otherError ++ detected "2000" .all)).emitted =
          [.turnBegin 100, .turnBegin 2000] := by
  decide +kernel

end Capture
end LibreEcho.Voice
