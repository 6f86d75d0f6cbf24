import LibreEcho.Ws.Client

/-!
Reading does not depend on when the bytes arrive.

Beside the reader stands one whose stream has everything at once. A call that ends
with a result ends with the same result there; a call that runs into its deadline
leaves a client that has the same results to come.
-/
namespace LibreEcho.Ws

/-- The stream has all that was sent: one `recv` suffices, or it answers with its end. -/
def exactAtOnce (ending : Ending) (length : Nat) (_ : Unit) (incoming buffer : Bytes) :
    Exact Unit :=
  if length ≤ buffer.length then ⟨.done, (), incoming, buffer⟩
  else if length - buffer.length ≤ incoming.length then
    ⟨.done, (), incoming.drop (length - buffer.length),
      buffer ++ incoming.take (length - buffer.length)⟩
  else
    match ending with
    | .silent => ⟨.timeout, (), [], buffer ++ incoming⟩
    | .closed => ⟨.closed, (), [], buffer ++ incoming⟩
    | .broken => ⟨.error, (), [], buffer ++ incoming⟩

section exact
variable {ending : Ending} {length : Nat} {incoming buffer : Bytes}

theorem exactAtOnce_full (full : length ≤ buffer.length) :
    exactAtOnce ending length () incoming buffer = ⟨.done, (), incoming, buffer⟩ := by
  simp only [exactAtOnce, if_pos full]

theorem exactAtOnce_enough (short : ¬length ≤ buffer.length)
    (enough : length - buffer.length ≤ incoming.length) :
    exactAtOnce ending length () incoming buffer =
      ⟨.done, (), incoming.drop (length - buffer.length),
        buffer ++ incoming.take (length - buffer.length)⟩ := by
  simp only [exactAtOnce, if_neg short, if_pos enough]

def Ending.code : Ending → ReadCode
  | .silent => .timeout
  | .closed => .closed
  | .broken => .error

theorem exactAtOnce_short (short : ¬length ≤ buffer.length)
    (few : ¬length - buffer.length ≤ incoming.length) :
    exactAtOnce ending length () incoming buffer = ⟨ending.code, (), [], buffer ++ incoming⟩ := by
  simp only [exactAtOnce, if_neg short, if_neg few]
  cases ending <;> rfl

theorem exactAtOnce_moved {got : Nat} (some : got ≤ incoming.length)
    (room : got ≤ length - buffer.length) :
    exactAtOnce ending length () (incoming.drop got) (buffer ++ incoming.take got) =
      exactAtOnce ending length () incoming buffer := by
  have moved : (buffer ++ incoming.take got).length = buffer.length + got ∧
      (incoming.drop got).length = incoming.length - got := by
    rw [List.length_append, List.length_take, List.length_drop]
    omega
  by_cases full : length ≤ buffer.length
  · have none : got = 0 := by omega
    rw [none, List.drop_zero, List.take_zero, List.append_nil]
  · by_cases enough : length - buffer.length ≤ incoming.length
    · rw [exactAtOnce_enough full enough]
      by_cases last : length ≤ (buffer ++ incoming.take got).length
      · have whole : got = length - buffer.length := by omega
        rw [exactAtOnce_full last, whole]
      · rw [exactAtOnce_enough last (by omega), moved.1, List.drop_drop, List.append_assoc]
        have sum : got + (length - (buffer.length + got)) = length - buffer.length := by omega
        rw [← List.take_add, sum]
    · rw [exactAtOnce_short full enough, exactAtOnce_short (by omega) (by omega),
        List.append_assoc, List.take_append_drop]

theorem exactAtOnce_taken {got : Nat} (room : got ≤ length - buffer.length) :
    exactAtOnce ending length () (incoming.drop got) (buffer ++ incoming.take got) =
      exactAtOnce ending length () incoming buffer := by
  by_cases some : got ≤ incoming.length
  · exact exactAtOnce_moved some room
  · have all := @exactAtOnce_moved ending length incoming buffer incoming.length (Nat.le_refl _)
      (by omega)
    rw [List.drop_of_length_le (by omega), List.take_of_length_le (by omega)]
    rw [List.drop_length, List.take_length] at all
    exact all

theorem readExactProgress_full (full : length ≤ buffer.length) (arrivals : List Arrival) :
    readExactProgress ending length arrivals incoming buffer =
      ⟨.done, arrivals, incoming, buffer⟩ := by
  cases arrivals with
  | nil => simp only [readExactProgress, if_pos full]
  | cons arrival arrivals => cases arrival <;> simp only [readExactProgress, if_pos full]

theorem readExactProgress_late (short : ¬length ≤ buffer.length) :
    readExactProgress ending length [] incoming buffer = ⟨.timeout, [], incoming, buffer⟩ := by
  simp only [readExactProgress, if_neg short]

theorem readExactProgress_quiet (short : ¬length ≤ buffer.length) (arrivals : List Arrival) :
    readExactProgress ending length (.quiet :: arrivals) incoming buffer =
      readExactProgress ending length arrivals incoming buffer := by
  simp only [readExactProgress, if_neg short]

theorem readExactProgress_ready (short : ¬length ≤ buffer.length) (some : incoming ≠ [])
    (extra : Nat) (arrivals : List Arrival) :
    readExactProgress ending length (.ready extra :: arrivals) incoming buffer =
      readExactProgress ending length arrivals
        (incoming.drop (min (extra + 1) (length - buffer.length)))
        (buffer ++ incoming.take (min (extra + 1) (length - buffer.length))) := by
  simp only [readExactProgress, if_neg short, if_neg some]

/-- The client that ran into its deadline has taken bytes and kept them. -/
structure Paused (ending : Ending) (length : Nat) (incoming buffer incoming' buffer' : Bytes) :
    Prop where
  short : buffer'.length < length
  kept : ∃ taken, buffer' = buffer ++ taken ∧ incoming = taken ++ incoming'
  later : exactAtOnce ending length () incoming' buffer' =
    exactAtOnce ending length () incoming buffer

def Follows (ending : Ending) (length : Nat) (incoming buffer : Bytes)
    (got : Exact (List Arrival)) : Prop :=
  got.code ≠ .timeout ∧ exactAtOnce ending length () incoming buffer =
      ⟨got.code, (), got.incoming, got.buffer⟩ ∨
    got.code = .timeout ∧ Paused ending length incoming buffer got.incoming got.buffer

theorem readExactProgress_follows (arrivals : List Arrival) (incoming buffer : Bytes) :
    Follows ending length incoming buffer
      (readExactProgress ending length arrivals incoming buffer) := by
  induction arrivals generalizing incoming buffer with
  | nil =>
      by_cases full : length ≤ buffer.length
      · rw [readExactProgress_full full]
        exact .inl ⟨by simp, exactAtOnce_full full⟩
      · rw [readExactProgress_late full]
        exact .inr ⟨rfl, Nat.lt_of_not_le full, ⟨[], (List.append_nil _).symm, rfl⟩, rfl⟩
  | cons arrival arrivals ih =>
      by_cases full : length ≤ buffer.length
      · rw [readExactProgress_full full]
        exact .inl ⟨by simp, exactAtOnce_full full⟩
      · cases arrival with
        | quiet =>
            rw [readExactProgress_quiet full]
            exact ih incoming buffer
        | ready extra =>
            by_cases none : incoming = []
            · subst none
              have few : ¬length - buffer.length ≤ ([] : Bytes).length := by
                rw [List.length_nil]
                omega
              have ended := @exactAtOnce_short ending length [] buffer full few
              rw [List.append_nil] at ended
              simp only [readExactProgress, if_neg full, if_true]
              cases ending with
              | silent => exact ih [] buffer
              | closed | broken => exact .inl ⟨by simp, ended⟩
            · rw [readExactProgress_ready full none]
              generalize size : min (extra + 1) (length - buffer.length) = got
              have same := @exactAtOnce_taken ending length incoming buffer got (by omega)
              rcases ih (incoming.drop got) (buffer ++ incoming.take got) with
                ⟨ends, agrees⟩ | ⟨waits, short, ⟨taken, buffered, rest⟩, later⟩
              · exact .inl ⟨ends, same.symm.trans agrees⟩
              · refine .inr ⟨waits, short, ⟨incoming.take got ++ taken, ?_, ?_⟩,
                  later.trans same⟩
                · rw [buffered, List.append_assoc]
                · rw [List.append_assoc, ← rest, List.take_append_drop]

theorem exactAtOnce_read {incoming' header : Bytes}
    (read : exactAtOnce ending length () incoming buffer = ⟨.done, (), incoming', header⟩) :
    length ≤ header.length ∧ ∃ taken, header = buffer ++ taken ∧ incoming = taken ++ incoming' := by
  by_cases full : length ≤ buffer.length
  · rw [exactAtOnce_full full] at read
    cases read
    exact ⟨full, [], (List.append_nil _).symm, rfl⟩
  · by_cases enough : length - buffer.length ≤ incoming.length
    · rw [exactAtOnce_enough full enough] at read
      cases read
      refine ⟨?_, _, rfl, (List.take_append_drop _ _).symm⟩
      rw [List.length_append, List.length_take]
      omega
    · rw [exactAtOnce_short full enough] at read
      cases ending <;> cases read

end exact

section frame
variable {σ : Type} {exact : Nat → σ → Bytes → Bytes → Exact σ} {length : Nat} {left : σ}
  {ws : LeWs} {next : σ → LeWs → Frame σ}

/-- The client with the header read so far and the rest of the stream. -/
def LeWs.withHeader (ws : LeWs) (incoming header : Bytes) : LeWs :=
  { ws with incoming := incoming, readHeader := header }

def LeWs.withPayload (ws : LeWs) (incoming payload : Bytes) : LeWs :=
  { ws with incoming := incoming, readPayload := payload }

theorem headerStage_done {got : Exact σ} (read : exact length left ws.incoming ws.readHeader = got)
    (done : got.code = .done) :
    headerStage exact length left ws next =
      next got.left (ws.withHeader got.incoming got.buffer) := by
  simp only [headerStage, read, done, LeWs.withHeader]

theorem headerStage_stop {got : Exact σ} (read : exact length left ws.incoming ws.readHeader = got)
    (stops : got.code ≠ .done) :
    headerStage exact length left ws next =
      ⟨.stop got.code, got.left, ws.withHeader got.incoming got.buffer⟩ := by
  cases code : got.code with
  | done => exact absurd code stops
  | closed | error | timeout => simp only [headerStage, read, code, LeWs.withHeader]

theorem payloadStage_done {got : Exact σ} (some : length ≠ 0)
    (read : exact length left ws.incoming ws.readPayload = got) (done : got.code = .done) :
    payloadStage exact length left ws next =
      next got.left (ws.withPayload got.incoming got.buffer) := by
  simp only [payloadStage, if_neg some, read, done, LeWs.withPayload]

theorem payloadStage_stop {got : Exact σ} (some : length ≠ 0)
    (read : exact length left ws.incoming ws.readPayload = got) (stops : got.code ≠ .done) :
    payloadStage exact length left ws next =
      ⟨.stop got.code, got.left, ws.withPayload got.incoming got.buffer⟩ := by
  cases code : got.code with
  | done => exact absurd code stops
  | closed | error | timeout => simp only [payloadStage, if_neg some, read, code, LeWs.withPayload]

end frame
def LeWs.Sound (ws : LeWs) : Prop :=
  ws.readPayload ≠ [] → 2 ≤ ws.readHeader.length ∧
    (headerByte ws 1 &&& 0x7f = 126 → 4 ≤ ws.readHeader.length) ∧
    (headerByte ws 1 &&& 0x7f = 127 → 10 ≤ ws.readHeader.length)

/-- Both readers end alike, or the call pauses in a state with `Later`. -/
def Agrees (Later : LeWs → Prop) (step : Frame (List Arrival)) (once : Frame Unit) : Prop :=
  step.reading ≠ .stop .timeout ∧ once.reading = step.reading ∧ once.ws = step.ws ∨
    step.reading = .stop .timeout ∧ Later step.ws

section agree
variable {ending : Ending} {ws : LeWs} {length : Nat} {left : List Arrival}
  {next : List Arrival → LeWs → Frame (List Arrival)} {next' : Unit → LeWs → Frame Unit}
  {Later : LeWs → Prop}

theorem Agrees.mono {Later' : LeWs → Prop} {step : Frame (List Arrival)} {once : Frame Unit}
    (agrees : Agrees Later step once) (weaker : ∀ ws, Later ws → Later' ws) :
    Agrees Later' step once := by
  rcases agrees with ends | ⟨waits, later⟩
  · exact .inl ends
  · exact .inr ⟨waits, weaker _ later⟩

theorem Agrees.error (left : List Arrival) (ws : LeWs) :
    Agrees Later ⟨.stop .error, left, ws⟩ ⟨.stop .error, (), ws⟩ :=
  .inl ⟨by simp, rfl, rfl⟩

theorem headerStage_agrees
    (goes : ∀ left incoming header,
      exactAtOnce ending length () ws.incoming ws.readHeader = ⟨.done, (), incoming, header⟩ →
      Agrees Later (next left (ws.withHeader incoming header))
        (next' () (ws.withHeader incoming header)))
    (waits : ∀ incoming header,
      Paused ending length ws.incoming ws.readHeader incoming header →
      Later (ws.withHeader incoming header)) :
    Agrees Later (headerStage (readExactProgress ending) length left ws next)
      (headerStage (exactAtOnce ending) length () ws next') := by
  rcases @readExactProgress_follows ending length left ws.incoming ws.readHeader with
    ⟨ends, agrees⟩ | ⟨late, paused⟩
  · generalize read : readExactProgress ending length left ws.incoming ws.readHeader = got at *
    by_cases done : got.code = .done
    · rw [headerStage_done read done, headerStage_done agrees done]
      rw [done] at agrees
      exact goes _ _ _ agrees
    · rw [headerStage_stop read done, headerStage_stop agrees done]
      exact .inl ⟨by simpa using ends, rfl, rfl⟩
  · rw [headerStage_stop rfl (by rw [late]; decide), late]
    exact .inr ⟨rfl, waits _ _ paused⟩

theorem payloadStage_agrees
    (goes : ∀ left incoming payload, Agrees Later (next left (ws.withPayload incoming payload))
      (next' () (ws.withPayload incoming payload)))
    (waits : ∀ incoming payload,
      Paused ending length ws.incoming ws.readPayload incoming payload →
      Later (ws.withPayload incoming payload)) :
    Agrees Later (payloadStage (readExactProgress ending) length left ws next)
      (payloadStage (exactAtOnce ending) length () ws next') := by
  by_cases none : length = 0
  · simp only [payloadStage, if_pos none]
    exact goes left ws.incoming ws.readPayload
  · rcases @readExactProgress_follows ending length left ws.incoming ws.readPayload with
      ⟨ends, agrees⟩ | ⟨late, paused⟩
    · generalize read : readExactProgress ending length left ws.incoming ws.readPayload = got at *
      by_cases done : got.code = .done
      · rw [payloadStage_done none read done, payloadStage_done none agrees done]
        exact goes _ _ _
      · rw [payloadStage_stop none read done, payloadStage_stop none agrees done]
        exact .inl ⟨by simpa using ends, rfl, rfl⟩
    · rw [payloadStage_stop none rfl (by rw [late]; decide), late]
      exact .inr ⟨rfl, waits _ _ paused⟩

theorem headerStage_again (full : length ≤ ws.readHeader.length) :
    headerStage (exactAtOnce ending) length () ws next' = next' () ws := by
  rw [headerStage_done (exactAtOnce_full full) rfl]
  rfl

theorem headerStage_resumed {incoming header : Bytes}
    (paused : Paused ending length ws.incoming ws.readHeader incoming header) :
    headerStage (exactAtOnce ending) length () (ws.withHeader incoming header) next' =
      headerStage (exactAtOnce ending) length () ws next' := by
  simp only [headerStage, LeWs.withHeader, paused.later]

theorem payloadStage_resumed {incoming payload : Bytes}
    (paused : Paused ending length ws.incoming ws.readPayload incoming payload) :
    payloadStage (exactAtOnce ending) length () (ws.withPayload incoming payload) next' =
      payloadStage (exactAtOnce ending) length () ws next' := by
  have some : length ≠ 0 := Nat.ne_zero_of_lt paused.short
  simp only [payloadStage, LeWs.withPayload, if_neg some, paused.later]

theorem pending_withPayload {incoming payload : Bytes}
    (paused : Paused ending length ws.incoming ws.readPayload incoming payload) :
    (ws.withPayload incoming payload).pending = ws.pending := by
  obtain ⟨taken, buffered, rest⟩ := paused.kept
  simp only [LeWs.pending, LeWs.withPayload, buffered, rest, List.append_assoc]

theorem pending_withHeader {incoming header : Bytes} (fresh : ws.readPayload = [])
    (paused : Paused ending length ws.incoming ws.readHeader incoming header) :
    (ws.withHeader incoming header).pending = ws.pending := by
  obtain ⟨taken, buffered, rest⟩ := paused.kept
  simp only [LeWs.pending, LeWs.withHeader, buffered, rest, fresh, List.append_nil,
    List.append_assoc]

theorem finishFrame_agrees (length : Nat) (left : List Arrival) (ws : LeWs) :
    Agrees Later (finishFrame length left ws) (finishFrame length () ws) := by
  simp only [finishFrame]
  split
  · exact Agrees.error left ws
  · split
    · exact Agrees.error left _
    · exact .inl ⟨by simp, rfl, rfl⟩

theorem readBody_agrees (length : Nat) (left : List Arrival) (ws : LeWs) :
    Agrees (fun later => later.connected = ws.connected ∧
        later.readHeader = ws.readHeader ∧ later.pending = ws.pending ∧
        readBody (exactAtOnce ending) length () later = readBody (exactAtOnce ending) length () ws)
      (readBody (readExactProgress ending) length left ws)
      (readBody (exactAtOnce ending) length () ws) := by
  simp only [readBody]
  split
  · exact Agrees.error left ws
  · refine payloadStage_agrees (fun left incoming payload => finishFrame_agrees _ _ _)
      fun incoming payload paused => ⟨rfl, rfl, pending_withPayload paused, ?_⟩
    exact payloadStage_resumed paused

theorem headerByte_append {i : Nat} {incoming header taken : Bytes}
    (there : i < ws.readHeader.length) (buffered : header = ws.readHeader ++ taken) :
    headerByte (ws.withHeader incoming header) i = headerByte ws i := by
  simp only [headerByte, LeWs.withHeader, buffered, List.getD_eq_getElem?_getD,
    List.getElem?_append_left there]

theorem headerByte_same {later : LeWs} (same : later.readHeader = ws.readHeader) (i : Nat) :
    headerByte later i = headerByte ws i := by
  rw [headerByte, same, headerByte]

theorem extendedLength_same {later : LeWs} (same : later.readHeader = ws.readHeader)
    (count : Nat) : extendedLength count later = extendedLength count ws := by
  simp only [extendedLength, headerByte_same same]

/-- What a call that pauses behind the first two bytes leaves. -/
structure Resumes (ending : Ending) (ws later : LeWs) : Prop where
  connected : later.connected = ws.connected
  long : 2 ≤ later.readHeader.length
  pending : later.pending = ws.pending
  sound : later.Sound
  again : readLength (exactAtOnce ending) () later = readLength (exactAtOnce ending) () ws

theorem longLength_agrees {count : Nat} (long : 2 ≤ ws.readHeader.length)
    (sound : ws.readPayload ≠ [] → length ≤ ws.readHeader.length)
    (chosen : ∀ later : LeWs, headerByte later 0 = headerByte ws 0 →
      headerByte later 1 = headerByte ws 1 →
      (readLength (exactAtOnce ending) () later =
        headerStage (exactAtOnce ending) length () later fun left ws =>
          readBody (exactAtOnce ending) (extendedLength count ws) left ws) ∧
      (length ≤ later.readHeader.length → later.Sound)) :
    Agrees (Resumes ending ws)
      (headerStage (readExactProgress ending) length left ws fun left ws =>
        readBody (readExactProgress ending) (extendedLength count ws) left ws)
      (headerStage (exactAtOnce ending) length () ws fun left ws =>
        readBody (exactAtOnce ending) (extendedLength count ws) left ws) := by
  refine headerStage_agrees (fun left incoming header done => ?_)
    fun incoming header paused => ?_
  · obtain ⟨full, taken, buffered, rest⟩ := exactAtOnce_read done
    have behind : 2 ≤ header.length := by
      rw [buffered, List.length_append]
      omega
    have kept : (ws.withHeader incoming header).pending = ws.pending := by
      by_cases fresh : ws.readPayload = []
      · simp only [LeWs.pending, LeWs.withHeader, fresh, buffered, rest, List.append_nil,
          List.append_assoc]
      · rw [exactAtOnce_full (sound fresh)] at done
        cases done
        rfl
    have first := (chosen ws rfl rfl).1
    rw [headerStage_done done rfl] at first
    refine (readBody_agrees _ _ _).mono fun later ⟨joined, same, pending, again⟩ => ?_
    have byte (i : Nat) (early : i < ws.readHeader.length) : headerByte later i = headerByte ws i :=
      (headerByte_same same i).trans (headerByte_append early buffered)
    obtain ⟨step, placed⟩ := chosen later (byte 0 (by omega)) (byte 1 (by omega))
    have there : length ≤ later.readHeader.length := by
      rw [same]
      exact full
    refine ⟨joined, by rw [same]; exact behind, pending.trans kept, placed there, ?_⟩
    rw [step, headerStage_again there, extendedLength_same same, again, first]
  · obtain ⟨taken, buffered, -⟩ := paused.kept
    have behind : ws.readHeader.length ≤ header.length := by
      rw [buffered, List.length_append]
      omega
    have fresh : ws.readPayload = [] := by
      by_contra begun
      have := sound begun
      have := paused.short
      omega
    have byte (i : Nat) (early : i < ws.readHeader.length) :
        headerByte (ws.withHeader incoming header) i = headerByte ws i :=
      headerByte_append early buffered
    obtain ⟨step, -⟩ := chosen _ (byte 0 (by omega)) (byte 1 (by omega))
    refine ⟨rfl, Nat.le_trans long behind, pending_withHeader fresh paused,
      fun begun => absurd fresh begun, ?_⟩
    rw [step, headerStage_resumed paused, (chosen ws rfl rfl).1]

theorem readLength_agrees (long : 2 ≤ ws.readHeader.length) (sound : ws.Sound) :
    Agrees (Resumes ending ws) (readLength (readExactProgress ending) left ws)
      (readLength (exactAtOnce ending) () ws) := by
  rw [readLength, readLength]
  by_cases reserved : headerByte ws 0 &&& 0x70 ≠ 0
  · rw [if_pos reserved, if_pos reserved]
    exact Agrees.error left ws
  · by_cases masked : headerByte ws 1 &&& 0x80 ≠ 0
    · rw [if_neg reserved, if_neg reserved, if_pos masked, if_pos masked]
      exact Agrees.error left ws
    · rw [if_neg reserved, if_neg reserved, if_neg masked, if_neg masked]
      have byte : (126 : UInt8) ≠ 127 := by decide
      by_cases two : headerByte ws 1 &&& 0x7f = 126
      · rw [if_pos two, if_pos two]
        refine longLength_agrees long (fun begun => (sound begun).2.1 two)
          fun later zero one => ⟨?_, fun there begun => ⟨by omega, fun _ => there, fun eight => ?_⟩⟩
        · rw [readLength, zero, one, if_neg reserved, if_neg masked, if_pos two]
        · rw [one, two] at eight
          exact absurd eight byte
      · by_cases eight : headerByte ws 1 &&& 0x7f = 127
        · rw [if_neg two, if_neg two, if_pos eight, if_pos eight]
          refine longLength_agrees long (fun begun => (sound begun).2.2 eight)
            fun later zero one => ⟨?_, fun there begun => ⟨by omega, fun two => ?_, fun _ => there⟩⟩
          · rw [readLength, zero, one, if_neg reserved, if_neg masked, if_neg two, if_pos eight]
          · rw [one, eight] at two
            exact absurd two.symm byte
        · rw [if_neg two, if_neg two, if_neg eight, if_neg eight]
          refine (readBody_agrees _ _ _).mono fun later ⟨joined, same, pending, again⟩ => ?_
          have zero := headerByte_same same 0
          have one := headerByte_same same 1
          refine ⟨joined, by rw [same]; exact long, pending, fun _ => ⟨by rw [same]; exact long, ?_, ?_⟩, ?_⟩
          · rw [one]
            exact fun equal => absurd equal two
          · rw [one]
            exact fun equal => absurd equal eight
          · rw [readLength, readLength, zero, one, if_neg reserved, if_neg reserved, if_neg masked,
              if_neg masked, if_neg two, if_neg two, if_neg eight, if_neg eight, again]

theorem readFrame_agrees (sound : ws.Sound) (left : List Arrival) :
    Agrees (fun later => later.connected = ws.connected ∧ later.pending = ws.pending ∧
        later.Sound ∧ readFrame (exactAtOnce ending) () later = readFrame (exactAtOnce ending) () ws)
      (readFrame (readExactProgress ending) left ws) (readFrame (exactAtOnce ending) () ws) := by
  refine headerStage_agrees (fun left incoming header done => ?_)
    fun incoming header paused => ?_
  · obtain ⟨full, taken, buffered, rest⟩ := exactAtOnce_read done
    have first : readFrame (exactAtOnce ending) () ws =
        readLength (exactAtOnce ending) () (ws.withHeader incoming header) :=
      headerStage_done done rfl
    have placed : (ws.withHeader incoming header).Sound ∧
        (ws.withHeader incoming header).pending = ws.pending := by
      by_cases fresh : ws.readPayload = []
      · refine ⟨fun begun => absurd fresh begun, ?_⟩
        simp only [LeWs.pending, LeWs.withHeader, fresh, buffered, rest, List.append_nil,
          List.append_assoc]
      · rw [exactAtOnce_full (sound fresh).1] at done
        cases done
        exact ⟨sound, rfl⟩
    refine (readLength_agrees full placed.1).mono fun later resumes => ?_
    refine ⟨resumes.connected, resumes.pending.trans placed.2, resumes.sound, ?_⟩
    calc readFrame (exactAtOnce ending) () later
        = readLength (exactAtOnce ending) () later := headerStage_again resumes.long
      _ = readFrame (exactAtOnce ending) () ws := resumes.again.trans first.symm
  · obtain ⟨taken, buffered, -⟩ := paused.kept
    have fresh : ws.readPayload = [] := by
      by_contra begun
      have complete := (sound begun).1
      have short := paused.short
      rw [buffered, List.length_append] at short
      omega
    exact ⟨rfl, pending_withHeader fresh paused, fun begun => absurd fresh begun,
      headerStage_resumed paused⟩

end agree
section once
variable {ending : Ending} {ws : LeWs} {length : Nat} {next : Unit → LeWs → Frame Unit}

/-- The connection stays, and at most `n` bytes are left in the stream. -/
def Left (ws : LeWs) (n : Nat) (later : LeWs) : Prop :=
  later.connected = ws.connected ∧ later.incoming.length ≤ n

theorem exactAtOnce_incoming (incoming buffer : Bytes) :
    (exactAtOnce ending length () incoming buffer).incoming.length ≤ incoming.length := by
  by_cases full : length ≤ buffer.length
  · exact Nat.le_of_eq (by rw [exactAtOnce_full full])
  · by_cases enough : length - buffer.length ≤ incoming.length
    · rw [exactAtOnce_enough full enough]
      exact (List.drop_sublist _ _).length_le
    · rw [exactAtOnce_short full enough]
      exact Nat.zero_le _

theorem headerStage_left
    (goes : ∀ incoming header, incoming.length ≤ ws.incoming.length →
      Left ws ws.incoming.length (next () (ws.withHeader incoming header)).ws) :
    Left ws ws.incoming.length (headerStage (exactAtOnce ending) length () ws next).ws := by
  have fewer := @exactAtOnce_incoming ending length ws.incoming ws.readHeader
  by_cases done : (exactAtOnce ending length () ws.incoming ws.readHeader).code = .done
  · rw [headerStage_done rfl done]
    exact goes _ _ fewer
  · rw [headerStage_stop rfl done]
    exact ⟨rfl, fewer⟩

theorem finishFrame_ws (length : Nat) (ws : LeWs) :
    (finishFrame length () ws).ws.connected = ws.connected ∧
      (finishFrame length () ws).ws.incoming = ws.incoming := by
  simp only [finishFrame]
  split
  · exact ⟨rfl, rfl⟩
  · split <;> exact ⟨rfl, rfl⟩

theorem readBody_left (length : Nat) (ws : LeWs) :
    Left ws ws.incoming.length (readBody (exactAtOnce ending) length () ws).ws := by
  have fewer := @exactAtOnce_incoming ending length ws.incoming ws.readPayload
  rw [readBody]
  split
  · exact ⟨rfl, Nat.le_refl _⟩
  · by_cases none : length = 0
    · obtain ⟨same, rest⟩ := finishFrame_ws length ws
      simp only [payloadStage, if_pos none]
      exact ⟨same, Nat.le_of_eq (congrArg List.length rest)⟩
    · by_cases done : (exactAtOnce ending length () ws.incoming ws.readPayload).code = .done
      · rw [payloadStage_done none rfl done]
        obtain ⟨same, rest⟩ := finishFrame_ws length (ws.withPayload
          (exactAtOnce ending length () ws.incoming ws.readPayload).incoming
          (exactAtOnce ending length () ws.incoming ws.readPayload).buffer)
        exact ⟨same, by rw [rest]; exact fewer⟩
      · rw [payloadStage_stop none rfl done]
        exact ⟨rfl, fewer⟩

theorem longLength_left (count : Nat) :
    Left ws ws.incoming.length (headerStage (exactAtOnce ending) length () ws fun left ws =>
      readBody (exactAtOnce ending) (extendedLength count ws) left ws).ws := by
  refine headerStage_left fun incoming header fewer => ?_
  obtain ⟨same, rest⟩ := @readBody_left ending
    (extendedLength count (ws.withHeader incoming header)) (ws.withHeader incoming header)
  exact ⟨same, Nat.le_trans rest fewer⟩

theorem readLength_left (ws : LeWs) :
    Left ws ws.incoming.length (readLength (exactAtOnce ending) () ws).ws := by
  rw [readLength]
  split
  · exact ⟨rfl, Nat.le_refl _⟩
  · split
    · exact ⟨rfl, Nat.le_refl _⟩
    · split
      · exact longLength_left 2
      · split
        · exact longLength_left 8
        · exact readBody_left _ ws

theorem readFrame_left (ws : LeWs) :
    (readFrame (exactAtOnce ending) () ws).ws.connected = ws.connected ∧
      ∀ opcode payload, (readFrame (exactAtOnce ending) () ws).reading = .frame opcode payload →
        (readFrame (exactAtOnce ending) () ws).ws.incoming.length < ws.pending.length := by
  by_cases done : (exactAtOnce ending 2 () ws.incoming ws.readHeader).code = .done
  · generalize read : exactAtOnce ending 2 () ws.incoming ws.readHeader = got at done
    have stage : readFrame (exactAtOnce ending) () ws =
        readLength (exactAtOnce ending) () (ws.withHeader got.incoming got.buffer) :=
      headerStage_done read done
    obtain ⟨same, fewer⟩ := @readLength_left ending (ws.withHeader got.incoming got.buffer)
    rw [stage]
    refine ⟨same, fun opcode payload _ => ?_⟩
    obtain ⟨code, left, incoming, header⟩ := got
    cases done
    obtain ⟨full, taken, buffered, rest⟩ := exactAtOnce_read read
    have total : ws.pending.length = header.length + ws.readPayload.length + incoming.length := by
      simp only [LeWs.pending, buffered, rest, List.length_append]
      omega
    have bound : (readLength (exactAtOnce ending) () (ws.withHeader incoming header)).ws.incoming.length
        ≤ incoming.length := fewer
    simp only
    omega
  · have stage : readFrame (exactAtOnce ending) () ws = _ := headerStage_stop rfl done
    rw [stage]
    exact ⟨rfl, fun opcode payload found => by cases found⟩

end once
end LibreEcho.Ws
