import LibreEcho.Ws.Delivery

/-!
The reader at once is the reader whose every `recv` is answered in full.
-/
namespace LibreEcho.Ws

/-- Every `recv` of the call has all that the server sent. -/
def everything (incoming : Bytes) : List Arrival :=
  List.replicate (incoming.length + 1) (.ready incoming.length)

/-- Arrivals that still bring the whole stream, and its end. -/
def Plenty (left : List Arrival) (incoming : Bytes) : Prop :=
  ∃ k extra, left = List.replicate k (.ready extra) ∧ incoming.length < k ∧
    incoming.length ≤ extra

theorem plenty_everything (incoming : Bytes) : Plenty (everything incoming) incoming :=
  ⟨_, _, rfl, Nat.lt_succ_self _, Nat.le_refl _⟩

section exact
variable {ending : Ending} {length : Nat} {incoming buffer : Bytes} {left : List Arrival}

theorem readExactProgress_silent (short : ¬length ≤ buffer.length) (arrivals : List Arrival) :
    readExactProgress .silent length arrivals [] buffer = ⟨.timeout, [], [], buffer⟩ := by
  induction arrivals with
  | nil => exact readExactProgress_late short
  | cons arrival arrivals ih =>
      cases arrival with
      | quiet =>
          rw [readExactProgress_quiet short]
          exact ih
      | ready extra =>
          simp only [readExactProgress, if_neg short, if_true]
          exact ih

theorem readExactProgress_end (short : ¬length ≤ buffer.length) (extra : Nat)
    (arrivals : List Arrival) :
    ∃ left, readExactProgress ending length (.ready extra :: arrivals) [] buffer =
      ⟨ending.code, left, [], buffer⟩ := by
  cases ending with
  | silent => exact ⟨_, readExactProgress_silent short _⟩
  | closed | broken =>
      simp only [readExactProgress, if_neg short, if_true]
      exact ⟨_, rfl⟩

structure InFull (ending : Ending) (length : Nat) (incoming buffer : Bytes)
    (got : Exact (List Arrival)) : Prop where
  once : exactAtOnce ending length () incoming buffer = ⟨got.code, (), got.incoming, got.buffer⟩
  plenty : got.code = .done → Plenty got.left got.incoming

theorem readExactProgress_inFull (plenty : Plenty left incoming) :
    InFull ending length incoming buffer
      (readExactProgress ending length left incoming buffer) := by
  by_cases full : length ≤ buffer.length
  · rw [readExactProgress_full full]
    exact ⟨exactAtOnce_full full, fun _ => plenty⟩
  · obtain ⟨k, extra, rfl, many, wide⟩ := plenty
    have undone : ending.code ≠ .done := by
      cases ending <;> simp [Ending.code]
    obtain ⟨k, rfl⟩ : ∃ n, k = n + 1 := ⟨k - 1, by omega⟩
    rw [List.replicate_succ]
    by_cases none : incoming = []
    · subst none
      obtain ⟨left, ended⟩ := @readExactProgress_end ending length buffer full extra
        (List.replicate k (.ready extra))
      have few : ¬length - buffer.length ≤ ([] : Bytes).length := by
        rw [List.length_nil]
        omega
      rw [ended]
      refine ⟨?_, fun done => absurd done undone⟩
      rw [exactAtOnce_short full few, List.append_nil]
    · have some := List.length_pos_iff.mpr none
      rw [readExactProgress_ready full none]
      by_cases enough : length - buffer.length ≤ incoming.length
      · have whole : min (extra + 1) (length - buffer.length) = length - buffer.length := by omega
        have there : length ≤ (buffer ++ incoming.take (length - buffer.length)).length := by
          rw [List.length_append, List.length_take]
          omega
        rw [whole, readExactProgress_full there]
        refine ⟨exactAtOnce_enough full enough, fun _ => ⟨k, extra, rfl, ?_, ?_⟩⟩
        · rw [List.length_drop]
          omega
        · rw [List.length_drop]
          omega
      · have beyond : incoming.length ≤ min (extra + 1) (length - buffer.length) := by omega
        obtain ⟨k, rfl⟩ : ∃ n, k = n + 1 := ⟨k - 1, by omega⟩
        have short : ¬length ≤ (buffer ++ incoming).length := by
          rw [List.length_append]
          omega
        obtain ⟨left, ended⟩ := @readExactProgress_end ending length (buffer ++ incoming) short
          extra (List.replicate k (.ready extra))
        rw [List.drop_of_length_le beyond, List.take_of_length_le beyond, List.replicate_succ, ended]
        exact ⟨exactAtOnce_short full enough, fun done => absurd done undone⟩

end exact

/-- Both readers have done the same, and everything is still there behind a frame. -/
structure Alike (step : Frame (List Arrival)) (once : Frame Unit) : Prop where
  reading : once.reading = step.reading
  ws : once.ws = step.ws
  plenty : ∀ opcode payload, step.reading = .frame opcode payload →
    Plenty step.left step.ws.incoming

section frame
variable {ending : Ending} {ws : LeWs} {length : Nat} {left : List Arrival}
  {next : List Arrival → LeWs → Frame (List Arrival)} {next' : Unit → LeWs → Frame Unit}

theorem Alike.stop (code : ReadCode) (left : List Arrival) (ws : LeWs) :
    Alike ⟨.stop code, left, ws⟩ ⟨.stop code, (), ws⟩ :=
  ⟨rfl, rfl, fun opcode payload found => by cases found⟩

theorem headerStage_alike (plenty : Plenty left ws.incoming)
    (goes : ∀ left incoming header, Plenty left incoming →
      Alike (next left (ws.withHeader incoming header)) (next' () (ws.withHeader incoming header))) :
    Alike (headerStage (readExactProgress ending) length left ws next)
      (headerStage (exactAtOnce ending) length () ws next') := by
  have full := @readExactProgress_inFull ending length ws.incoming ws.readHeader left plenty
  generalize read : readExactProgress ending length left ws.incoming ws.readHeader = got at full
  by_cases done : got.code = .done
  · rw [headerStage_done read done, headerStage_done full.once done]
    exact goes _ _ _ (full.plenty done)
  · rw [headerStage_stop read done, headerStage_stop full.once done]
    exact Alike.stop _ _ _

theorem payloadStage_alike (plenty : Plenty left ws.incoming)
    (goes : ∀ left incoming payload, Plenty left incoming →
      Alike (next left (ws.withPayload incoming payload))
        (next' () (ws.withPayload incoming payload))) :
    Alike (payloadStage (readExactProgress ending) length left ws next)
      (payloadStage (exactAtOnce ending) length () ws next') := by
  by_cases none : length = 0
  · simp only [payloadStage, if_pos none]
    exact goes left ws.incoming ws.readPayload plenty
  · have full := @readExactProgress_inFull ending length ws.incoming ws.readPayload left plenty
    generalize read : readExactProgress ending length left ws.incoming ws.readPayload = got at full
    by_cases done : got.code = .done
    · rw [payloadStage_done none read done, payloadStage_done none full.once done]
      exact goes _ _ _ (full.plenty done)
    · rw [payloadStage_stop none read done, payloadStage_stop none full.once done]
      exact Alike.stop _ _ _

theorem finishFrame_alike (length : Nat) (plenty : Plenty left ws.incoming) :
    Alike (finishFrame length left ws) (finishFrame length () ws) := by
  simp only [finishFrame]
  split
  · exact Alike.stop _ _ _
  · split
    · exact Alike.stop _ _ _
    · exact ⟨rfl, rfl, fun _ _ _ => plenty⟩

theorem readBody_alike (length : Nat) (plenty : Plenty left ws.incoming) :
    Alike (readBody (readExactProgress ending) length left ws)
      (readBody (exactAtOnce ending) length () ws) := by
  rw [readBody, readBody]
  split
  · exact Alike.stop _ _ _
  · exact payloadStage_alike plenty fun _ _ _ plenty => finishFrame_alike _ plenty

theorem readLength_alike (plenty : Plenty left ws.incoming) :
    Alike (readLength (readExactProgress ending) left ws)
      (readLength (exactAtOnce ending) () ws) := by
  rw [readLength, readLength]
  split
  · exact Alike.stop _ _ _
  · split
    · exact Alike.stop _ _ _
    · split
      · exact headerStage_alike plenty fun _ _ _ plenty => readBody_alike _ plenty
      · split
        · exact headerStage_alike plenty fun _ _ _ plenty => readBody_alike _ plenty
        · exact readBody_alike _ plenty

theorem readFrame_alike (plenty : Plenty left ws.incoming) :
    Alike (readFrame (readExactProgress ending) left ws) (readFrame (exactAtOnce ending) () ws) :=
  headerStage_alike plenty fun _ _ _ plenty => readLength_alike plenty

end frame
end LibreEcho.Ws

/-!
The results of a caller who calls again after every timeout.

They are those of the same calls on a stream that has everything at once, however
the bytes arrived and at whichever byte a deadline passed.
-/
namespace LibreEcho.Ws

theorem pending_forget (ws : LeWs) (pongs : List Bytes) :
    ({ ws.forget with pongs := pongs } : LeWs).pending = ws.incoming := rfl

theorem sound_forget {ws : LeWs} (fresh : ws.readPayload = []) : ws.Sound := fun begun => absurd fresh begun

section loop
variable {σ τ : Type} {sent : List Bytes → Bytes → Bool} {outSize : Nat}
  {R : TextResult × LeWs → TextResult × LeWs → Prop}

theorem handleFrame_rel {step : Frame σ} {step' : Frame τ} {again : σ → LeWs → TextResult × LeWs}
    {again' : τ → LeWs → TextResult × LeWs} (reading : step'.reading = step.reading)
    (ws : step'.ws = step.ws) (same : ∀ x : TextResult × LeWs, x.1 ≠ .timeout → x.2.Sound → R x x)
    (ends : step.reading ≠ .stop .timeout)
    (goes : ∀ opcode payload, step.reading = .frame opcode payload → ∀ pongs,
      R (again step.left { step.ws.forget with pongs := pongs })
        (again' step'.left { step.ws.forget with pongs := pongs })) :
    R (handleFrame sent outSize again step) (handleFrame sent outSize again' step') := by
  simp only [handleFrame, reading, ws]
  cases found : step.reading with
  | stop code =>
      cases code with
      | timeout => exact absurd found ends
      | done | closed | error => exact same _ (by simp) (sound_forget rfl)
  | frame opcode payload =>
      have behind := goes opcode payload found
      simp only
      split
      · split
        · exact behind _
        · exact same _ (by simp) (sound_forget rfl)
      · split
        · exact behind _
        · split
          · exact same _ (by simp) (sound_forget rfl)
          · split
            · exact same _ (by simp) (sound_forget rfl)
            · split <;> exact same _ (by simp) (sound_forget rfl)

theorem handleFrame_timeout {step : Frame σ} {again : σ → LeWs → TextResult × LeWs}
    (waits : step.reading = .stop .timeout) :
    handleFrame sent outSize again step = (.timeout, step.ws) := by
  simp only [handleFrame, waits]

variable {ending : Ending}

theorem readTextLoop_fuel {n m : Nat} {ws : LeWs} (left : ws.pending.length < n)
    (right : ws.pending.length < m) :
    readTextLoop (exactAtOnce ending) sent outSize n () ws =
      readTextLoop (exactAtOnce ending) sent outSize m () ws := by
  induction n generalizing m ws with
  | zero => omega
  | succ n ih =>
      obtain ⟨m, rfl⟩ : ∃ k, m = k + 1 := ⟨m - 1, by omega⟩
      rw [readTextLoop, readTextLoop]
      by_cases waits : (readFrame (exactAtOnce ending) () ws).reading = .stop .timeout
      · rw [handleFrame_timeout waits, handleFrame_timeout waits]
      · refine handleFrame_rel (R := Eq) rfl rfl (fun x _ _ => rfl) waits
          fun opcode payload found pongs => ?_
        have fewer := (readFrame_left ws).2 opcode payload found
        exact ih (by rw [pending_forget]; omega) (by rw [pending_forget]; omega)

theorem readTextLoop_plenty {left : List Arrival} {ws : LeWs} (plenty : Plenty left ws.incoming)
    (n : Nat) :
    readTextLoop (readExactProgress ending) sent outSize n left ws =
      readTextLoop (exactAtOnce ending) sent outSize n () ws := by
  induction n generalizing left ws with
  | zero => rfl
  | succ n ih =>
      have alike := @readFrame_alike ending ws left plenty
      rw [readTextLoop, readTextLoop]
      by_cases waits : (readFrame (readExactProgress ending) left ws).reading = .stop .timeout
      · rw [handleFrame_timeout waits, handleFrame_timeout (alike.reading.trans waits), alike.ws]
      · exact handleFrame_rel (R := Eq) alike.reading alike.ws (fun x _ _ => rfl) waits
          fun opcode payload found pongs => ih (alike.plenty opcode payload found)

/-- A call that ends has ended as the one at once; a call that pauses has it still to come. -/
structure Resumed (connected : Bool) (again : LeWs → TextResult × LeWs)
    (r once : TextResult × LeWs) : Prop where
  sound : r.2.Sound
  ended : r.1 ≠ .timeout → once = r
  paused : r.1 = .timeout → r.2.connected = connected ∧ again r.2 = once

theorem readTextLoop_resumed {n m : Nat} {ws : LeWs} (sound : ws.Sound)
    (few : ws.pending.length < n) (few' : ws.pending.length < m) (left : List Arrival) :
    Resumed ws.connected
      (fun later =>
        readTextLoop (exactAtOnce ending) sent outSize (later.pending.length + 1) () later)
      (readTextLoop (readExactProgress ending) sent outSize n left ws)
      (readTextLoop (exactAtOnce ending) sent outSize m () ws) := by
  induction n generalizing m ws left with
  | zero => omega
  | succ n ih =>
      obtain ⟨m, rfl⟩ : ∃ k, m = k + 1 := ⟨m - 1, by omega⟩
      rcases readFrame_agrees sound left with ⟨ends, reading, same⟩ | ⟨waits, later⟩
      · rw [readTextLoop, readTextLoop]
        refine handleFrame_rel reading same
          (fun x ends sound => ⟨sound, fun _ => rfl, fun waits => absurd waits ends⟩) ends
          fun opcode payload found pongs => ?_
        obtain ⟨joined, fewer⟩ := @readFrame_left ending ws
        have fewer := fewer opcode payload (reading.trans found)
        rw [same] at fewer joined
        rw [← joined]
        exact @ih m { (readFrame (readExactProgress ending) left ws).ws.forget with pongs := pongs }
          (sound_forget rfl) (by rw [pending_forget]; omega) (by rw [pending_forget]; omega) _
      · obtain ⟨joined, pending, sound', again⟩ := later
        rw [readTextLoop, handleFrame_timeout waits]
        refine ⟨sound', fun ends => absurd rfl ends, fun _ => ⟨joined, ?_⟩⟩
        calc readTextLoop (exactAtOnce ending) sent outSize _ () _
            = readTextLoop (exactAtOnce ending) sent outSize (ws.pending.length + 1) () ws := by
              rw [pending, readTextLoop, again, readTextLoop]
          _ = readTextLoop (exactAtOnce ending) sent outSize (m + 1) () ws :=
              readTextLoop_fuel (Nat.lt_succ_self _) few'

end loop

def readTextAtOnce (peer : Peer) (outSize : Nat) (ws : LeWs) : TextResult × LeWs :=
  leWsReadText peer outSize (everything ws.incoming) ws

def runAtOnce (peer : Peer) (outSize : Nat) : Nat → LeWs → List TextResult
  | 0, _ => []
  | calls + 1, ws =>
      let first := readTextAtOnce peer outSize ws
      first.1 :: runAtOnce peer outSize calls first.2

def answers (results : List TextResult) : List TextResult :=
  results.filter (· ≠ .timeout)

section calls
variable {peer : Peer} {outSize : Nat}

theorem readTextAtOnce_eq (peer : Peer) (outSize : Nat) (ws : LeWs) :
    readTextAtOnce peer outSize ws = readText (exactAtOnce peer.ending) peer.sent outSize () ws := by
  rw [readTextAtOnce, leWsReadText, readText, readText]
  split
  · rfl
  · exact readTextLoop_plenty (plenty_everything _) _

theorem leWsReadText_resumed {ws : LeWs} (sound : ws.Sound) (arrivals : List Arrival) :
    Resumed ws.connected (readTextAtOnce peer outSize) (leWsReadText peer outSize arrivals ws)
      (readTextAtOnce peer outSize ws) := by
  by_cases refused : ws.connected = false ∨ outSize = 0
  · rw [leWsReadText, readText, if_pos refused, readTextAtOnce_eq, readText, if_pos refused]
    exact ⟨sound, fun _ => rfl, fun waits => by cases waits⟩
  · have loop := @readTextLoop_resumed peer.sent outSize peer.ending _ _ ws sound
      (Nat.lt_succ_self _) (Nat.lt_succ_self _) arrivals
    rw [leWsReadText, readText, if_neg refused, readTextAtOnce_eq, readText, if_neg refused]
    refine ⟨loop.sound, loop.ended, fun waits => ?_⟩
    obtain ⟨joined, again⟩ := loop.paused waits
    refine ⟨joined, ?_⟩
    rw [readTextAtOnce_eq, readText, joined, if_neg refused]
    exact again

theorem runAtOnce_congr {ws ws' : LeWs}
    (same : readTextAtOnce peer outSize ws = readTextAtOnce peer outSize ws') (n : Nat) :
    runAtOnce peer outSize n ws = runAtOnce peer outSize n ws' := by
  cases n with
  | zero => rfl
  | succ n => rw [runAtOnce, runAtOnce, same]

theorem leWsRun_sound {ws : LeWs} (sound : ws.Sound) (calls : List (List Arrival)) :
    (leWsRun peer outSize calls ws).2.Sound := by
  induction calls generalizing ws with
  | nil => exact sound
  | cons arrivals calls ih => exact ih (leWsReadText_resumed sound arrivals).sound

theorem answers_leWsRun {ws : LeWs} (sound : ws.Sound) (calls : List (List Arrival)) (n : Nat) :
    answers ((leWsRun peer outSize calls ws).1 ++
        runAtOnce peer outSize n (leWsRun peer outSize calls ws).2) =
      answers (runAtOnce peer outSize ((answers (leWsRun peer outSize calls ws).1).length + n)
        ws) := by
  induction calls generalizing ws with
  | nil =>
      simp only [leWsRun, answers, List.nil_append, List.filter_nil, List.length_nil,
        Nat.zero_add]
  | cons arrivals calls ih =>
      have call := @leWsReadText_resumed peer outSize ws sound arrivals
      have later := ih call.sound
      simp only [leWsRun, List.cons_append]
      by_cases waits : (leWsReadText peer outSize arrivals ws).1 = .timeout
      · have skipped (results : List TextResult) :
            answers ((leWsReadText peer outSize arrivals ws).1 :: results) = answers results := by
          rw [answers, List.filter_cons_of_neg (by simp [waits]), answers]
        rw [skipped, skipped, later, runAtOnce_congr (call.paused waits).2]
      · have counted (results : List TextResult) :
            answers ((leWsReadText peer outSize arrivals ws).1 :: results) =
              (leWsReadText peer outSize arrivals ws).1 :: answers results := by
          rw [answers, List.filter_cons_of_pos (by simp [waits]), answers]
        rw [counted, counted, later, List.length_cons, Nat.add_right_comm, runAtOnce,
          call.ended waits, counted]

end calls
/--
The results of the calls are those on a stream that has everything at once; at
every point, what is read at once from there on continues them. A call that pauses
in a frame keeps every byte of it, in order.
-/
theorem leWsReadText_delivery (peer : Peer) (outSize : Nat) (stream : Bytes)
    (calls : List (List Arrival)) :
    (∀ n, answers ((leWsRun peer outSize calls (.opened stream)).1 ++
        runAtOnce peer outSize n (leWsRun peer outSize calls (.opened stream)).2) =
      answers (runAtOnce peer outSize
        ((answers (leWsRun peer outSize calls (.opened stream)).1).length + n)
        (.opened stream))) ∧
    (leWsRun peer outSize calls (.opened stream)).2.Sound ∧
    (∀ ws : LeWs, ws.Sound → ∀ arrivals,
      (readFrame (readExactProgress peer.ending) arrivals ws).reading = .stop .timeout →
      (readFrame (readExactProgress peer.ending) arrivals ws).ws.pending = ws.pending ∧
        (readFrame (readExactProgress peer.ending) arrivals ws).ws.Sound) := by
  have fresh : (LeWs.opened stream).Sound := sound_forget rfl
  refine ⟨answers_leWsRun fresh calls, leWsRun_sound fresh calls, fun ws sound arrivals waits => ?_⟩
  rcases readFrame_agrees sound arrivals with ⟨ends, -, -⟩ | ⟨-, later⟩
  · exact absurd waits ends
  · exact ⟨later.2.1, later.2.2.1⟩

end LibreEcho.Ws
