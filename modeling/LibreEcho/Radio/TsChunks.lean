import LibreEcho.Radio.Ts

/-!
A transport stream fed in chunks of any size, with any room in the output, against the stream fed
at once.
-/
namespace LibreEcho.Radio

/-! ### Every call returns -/

def ahead (ts : LeRadioTs) (rest : Bytes) : Nat :=
  ts.carry.1.length + rest.length

def roundsLeft (ts : LeRadioTs) (rest : Bytes) : Nat :=
  2 * ahead ts rest + (if ts.synced then 0 else 1)

theorem fill_ahead {mark : Nat} (fits : mark ≤ leRadioTsPacket + 1) (carry : Carry) (rest : Bytes) :
    (carry.fill mark fits rest).1.1.length + (carry.fill mark fits rest).2.length =
      carry.1.length + rest.length := by
  rw [Carry.fill]
  dsimp only
  rw [List.length_append, List.length_take, List.length_drop]
  omega

theorem findLock_some {carry : Bytes} {i : Nat} (found : findLock carry = some i) :
    at_ carry i = 0x47 := by
  have lock := List.find?_some found
  exact (of_decide_eq_true lock).1

theorem resync_less {ts ts' : LeRadioTs} {rest rest' out out' : Bytes}
    (going : resync ts rest out = .go ts' rest' out') :
    out' = out ∧ ((ts'.synced = ts.synced ∧ ahead ts' rest' < ahead ts rest) ∨
    (ts'.synced = true ∧ (ahead ts' rest' < ahead ts rest ∨ (ahead ts' rest' = ahead ts rest ∧
      at_ (ts.carry.fill (leRadioTsPacket + 1) (Nat.le_refl _) rest).1.1 0 = 0x47)))) := by
  have same := fill_ahead (Nat.le_refl _) ts.carry rest
  rw [ahead, ahead, ← same]
  rw [resync] at going
  generalize ts.carry.fill (leRadioTsPacket + 1) (Nat.le_refl _) rest = filled at going ⊢
  dsimp only at going
  split at going
  · cases going
  next full =>
    cases found : findLock filled.1.1 with
    | none =>
        have limit := filled.1.2
        have count : (if leRadioTsPacket < filled.1.1.length
            then filled.1.1.length - leRadioTsPacket else 1) = 1 := by
          rw [if_pos (by omega)]
          omega
        rw [found] at going
        dsimp only at going
        rw [count] at going
        split at going
        · cases going
        · obtain ⟨rfl, rfl, rfl⟩ := Round.go.inj going
          refine ⟨rfl, .inl ⟨rfl, ?_⟩⟩
          dsimp only
          rw [Carry.drop, List.length_drop]
          omega
    | some i =>
        rw [found] at going
        obtain ⟨rfl, rfl, rfl⟩ := Round.go.inj going
        refine ⟨rfl, .inr ⟨rfl, ?_⟩⟩
        dsimp only
        rw [Carry.drop, List.length_drop]
        by_cases front : i = 0
        · refine .inr ⟨by omega, ?_⟩
          rw [← findLock_some found, front]
        · have packet : leRadioTsPacket = 188 := rfl
          exact .inl (by omega)

theorem feedRound_less {outCap : Nat} {ts ts' : LeRadioTs} {rest rest' out out' : Bytes}
    (going : feedRound outCap ts rest out = .go ts' rest' out') :
    roundsLeft ts' rest' < roundsLeft ts rest := by
  rw [roundsLeft, roundsLeft]
  rw [feedRound] at going
  have packet : leRadioTsPacket = 188 := rfl
  split at going
  case isTrue synced =>
    rw [if_pos synced]
    have same := fill_ahead (Nat.le_succ _) ts.carry rest
    generalize ts.carry.fill leRadioTsPacket (Nat.le_succ _) rest = filled at going same
    dsimp only at going
    split at going
    · cases going
    next full =>
      split at going
      · split at going
        · cases going
        · cases going
          rw [ahead, ahead, if_pos (by exact synced)]
          dsimp only
          rw [Carry.drop, List.length_drop]
          omega
      next bad =>
        have before : ahead { ts with synced := false, lost := 0, carry := filled.1 } filled.2 =
            ahead ts rest := same
        have some_ : 0 < filled.1.1.length := by omega
        rcases (resync_less going).2 with ⟨off, less⟩ | ⟨on_, less | ⟨-, sync⟩⟩
        · rw [if_neg (by rw [off]; rintro ⟨⟩)]
          omega
        · rw [if_pos on_]
          omega
        · rw [Carry.fill] at sync
          dsimp only at sync
          rw [at_append some_] at sync
          exact absurd sync bad
  case isFalse synced =>
    rw [if_neg synced]
    rcases (resync_less going).2 with ⟨off, less⟩ | ⟨on_, less | ⟨same, -⟩⟩
    · rw [if_neg (by rw [off]; exact synced)]
      omega
    · rw [if_pos on_]
      omega
    · rw [if_pos on_]
      omega

theorem feedLoop_returns {outCap fuel : Nat} {ts : LeRadioTs} {rest out : Bytes}
    (enough : roundsLeft ts rest < fuel) :
    ∃ fed, feedLoop outCap fuel ts rest out = some fed := by
  induction fuel generalizing ts rest out with
  | zero => exact absurd enough (Nat.not_lt_zero _)
  | succ fuel ih =>
      rw [feedLoop]
      cases round : feedRound outCap ts rest out with
      | stop fed => exact ⟨fed, rfl⟩
      | go ts' rest' out' =>
          have less := feedRound_less round
          exact ih (by omega)

theorem leRadioTsFeed_returns (ts : LeRadioTs) (input : Bytes) (outCap : Nat) :
    ∃ fed, leRadioTsFeed ts input outCap = some fed := by
  rw [leRadioTsFeed]
  split
  · exact ⟨_, rfl⟩
  · refine feedLoop_returns ?_
    rw [roundsLeft, ahead]
    split
    · omega
    · omega

/-! ### Room for everything -/

def audioAhead (ts : LeRadioTs) (rest : Bytes) : Nat :=
  leRadioTsPayload * (ahead ts rest / leRadioTsPacket)

theorem audioAhead_eq (ts : LeRadioTs) (rest : Bytes) :
    audioAhead ts rest = 184 * (ahead ts rest / 188) := rfl

theorem resync_stop {ts : LeRadioTs} {rest out : Bytes} {fed : Fed}
    (stopped : resync ts rest out = .stop fed) : fed.ending ≠ .outFull := by
  rw [resync] at stopped
  generalize ts.carry.fill (leRadioTsPacket + 1) (Nat.le_refl _) rest = filled at stopped
  dsimp only at stopped
  split at stopped
  · obtain rfl := Round.stop.inj stopped
    rintro ⟨⟩
  next full =>
    have limit := filled.1.2
    have count : (if leRadioTsPacket < filled.1.1.length
        then filled.1.1.length - leRadioTsPacket else 1) = 1 := by
      rw [if_pos (by omega)]
      omega
    split at stopped
    · rw [count] at stopped
      split at stopped
      · obtain rfl := Round.stop.inj stopped
        rintro ⟨⟩
      · cases stopped
    · cases stopped

theorem feedRound_room {outCap : Nat} {ts : LeRadioTs} {rest out : Bytes}
    (room : out.length + audioAhead ts rest ≤ outCap) :
    (∀ fed, feedRound outCap ts rest out = .stop fed → fed.ending ≠ .outFull) ∧
    ∀ ts' rest' out', feedRound outCap ts rest out = .go ts' rest' out' →
      out'.length + audioAhead ts' rest' ≤ outCap := by
  have packet : leRadioTsPacket = 188 := rfl
  have payload : leRadioTsPayload = 184 := rfl
  rw [audioAhead_eq] at room
  have off (u : LeRadioTs) (left : Bytes) (same : ahead u left = ahead ts rest) :
      (∀ fed, resync u left out = .stop fed → fed.ending ≠ .outFull) ∧
      ∀ ts' rest' out', resync u left out = .go ts' rest' out' →
        out'.length + audioAhead ts' rest' ≤ outCap := by
    refine ⟨fun fed stopped => resync_stop stopped, fun ts' rest' out' going => ?_⟩
    obtain ⟨rfl, less⟩ := resync_less going
    rw [audioAhead_eq]
    rcases less with ⟨-, less⟩ | ⟨-, less | ⟨same', -⟩⟩
    · omega
    · omega
    · omega
  rw [feedRound]
  split
  case isTrue synced =>
    have same := fill_ahead (Nat.le_succ _) ts.carry rest
    have ahead_eq : ahead ts rest = ts.carry.1.length + rest.length := rfl
    generalize ts.carry.fill leRadioTsPacket (Nat.le_succ _) rest = filled at same ⊢
    dsimp only
    split
    · exact ⟨fun fed stopped => by cases stopped; rintro ⟨⟩, fun _ _ _ going => by cases going⟩
    next full =>
      split
      · have limit := process_length ts.tables filled.1.1
        split
        · omega
        · refine ⟨fun _ stopped => (by cases stopped), fun ts' rest' out' going => ?_⟩
          obtain ⟨rfl, rfl, rfl⟩ := Round.go.inj going
          rw [audioAhead_eq, ahead, Carry.drop, List.length_drop, List.length_append]
          omega
      · exact off _ _ same
  case isFalse => exact off ts rest rfl

theorem feedLoop_room {outCap fuel : Nat} {ts : LeRadioTs} {rest out : Bytes} {fed : Fed}
    (room : out.length + audioAhead ts rest ≤ outCap)
    (returned : feedLoop outCap fuel ts rest out = some fed) : fed.ending ≠ .outFull := by
  induction fuel generalizing ts rest out with
  | zero => cases returned
  | succ fuel ih =>
      obtain ⟨stops, goes⟩ := feedRound_room room
      rw [feedLoop] at returned
      cases round : feedRound outCap ts rest out with
      | stop fed' =>
          rw [round] at returned
          obtain rfl := Option.some.inj returned
          exact stops fed' round
      | go ts' rest' out' =>
          rw [round] at returned
          exact ih (goes ts' rest' out' round) returned

/-! ### A call reads on -/

def Round.rest : Round → Bytes
  | .stop fed => fed.rest
  | .go _ rest _ => rest

theorem resync_rest (ts : LeRadioTs) (rest out : Bytes) :
    (resync ts rest out).rest =
      (ts.carry.fill (leRadioTsPacket + 1) (Nat.le_refl _) rest).2 := by
  rw [resync]
  generalize ts.carry.fill (leRadioTsPacket + 1) (Nat.le_refl _) rest = filled
  dsimp only
  split
  · rfl
  split
  · generalize (if leRadioTsPacket < filled.1.1.length
      then filled.1.1.length - leRadioTsPacket else 1) = count
    split
    · rfl
    · rfl
  · rfl

theorem fill_rest {mark : Nat} (fits : mark ≤ leRadioTsPacket + 1) (carry : Carry) (rest : Bytes) :
    (carry.fill mark fits rest).2.length = rest.length - (mark - carry.1.length) := by
  rw [Carry.fill, List.length_drop]

theorem feedRound_rest {outCap : Nat} (ts : LeRadioTs) (rest out : Bytes) :
    (feedRound outCap ts rest out).rest.length ≤ rest.length - (ts.mark - ts.carry.1.length) := by
  rw [feedRound, LeRadioTs.mark]
  split
  case isTrue =>
    have first := fill_rest (Nat.le_succ _) ts.carry rest
    generalize ts.carry.fill leRadioTsPacket (Nat.le_succ _) rest = filled at first ⊢
    dsimp only
    split
    · exact Nat.le_of_eq first
    split
    · split
      · exact Nat.le_of_eq first
      · exact Nat.le_of_eq first
    · rw [resync_rest, fill_rest]
      omega
  case isFalse =>
    refine Nat.le_of_eq ?_
    rw [resync_rest, fill_rest]

theorem feedLoop_rest {outCap fuel : Nat} {ts : LeRadioTs} {rest out : Bytes} {fed : Fed}
    (returned : feedLoop outCap fuel ts rest out = some fed) :
    fed.rest.length ≤ rest.length - (ts.mark - ts.carry.1.length) := by
  induction fuel generalizing ts rest out with
  | zero => cases returned
  | succ fuel ih =>
      have less := @feedRound_rest outCap ts rest out
      rw [feedLoop] at returned
      generalize feedRound outCap ts rest out = round at less returned
      cases round with
      | stop fed' =>
          obtain rfl := Option.some.inj returned
          exact less
      | go ts' rest' out' =>
          have later := ih returned
          have first : rest'.length ≤ rest.length - (ts.mark - ts.carry.1.length) := less
          omega

def LeRadioTs.turnedOver (ts : LeRadioTs) : LeRadioTs :=
  { ts with
    tables := (process ts.tables ts.carry.1).2
    carry := ts.carry.drop leRadioTsPacket }

theorem turnedOver_settled {ts : LeRadioTs} (held : HeldBack ts) : Settled ts.turnedOver := by
  have limit := ts.carry.2
  have packet : leRadioTsPacket = 188 := rfl
  rw [Settled, LeRadioTs.mark, LeRadioTs.turnedOver]
  dsimp only
  rw [held.1, if_pos rfl, Carry.drop, List.length_drop]
  omega

theorem feedRound_held {outCap : Nat} {ts : LeRadioTs} (held : HeldBack ts) (rest : Bytes)
    (room : leRadioTsPayload ≤ outCap) :
    feedRound outCap ts rest [] =
      .go ts.turnedOver rest (process ts.tables ts.carry.1).1 := by
  have limit := process_length ts.tables ts.carry.1
  rw [feedRound, if_pos held.1, fill_held held]
  dsimp only
  rw [if_neg (Nat.not_lt.mpr held.2.1), if_pos held.2.2, if_neg (by rw [List.length_nil]; omega)]
  rfl

theorem leRadioTsFeed_reads {ts : LeRadioTs} {input : Bytes} {outCap : Nat} {fed : Fed}
    (between : Between ts) (some_ : input ≠ []) (room : leRadioTsPayload ≤ outCap)
    (returned : leRadioTsFeed ts input outCap = some fed) : fed.rest.length < input.length := by
  have longer := List.length_pos_iff.mpr some_
  rw [leRadioTsFeed, if_neg (Nat.not_lt.mpr room)] at returned
  rcases between with settled | held
  · have less := feedLoop_rest returned
    rw [Settled] at settled
    omega
  · rw [feedLoop, feedRound_held held input room] at returned
    have less := feedLoop_rest returned
    have settled := turnedOver_settled held
    rw [Settled] at settled
    omega

/-! ### The caller -/

structure Pumped where
  ts : LeRadioTs
  out : Bytes
  lost : Bool
  calls : Nat

/-- One chunk; the rest is fed again until nothing of it is left. -/
def pumpChunk (caps : Nat → Nat) : Nat → Nat → LeRadioTs → Bytes → Option Pumped
  | 0, _, _, _ => none
  | fuel + 1, call, ts, rest =>
      if rest = [] then some ⟨ts, [], false, call⟩
      else
        match leRadioTsFeed ts rest (caps call) with
        | none => none
        | some fed =>
            if fed.ending = .syncLost ∨ fed.ending = .refused then
              some ⟨fed.ts, fed.out, true, call + 1⟩
            else
              (pumpChunk caps fuel (call + 1) fed.ts fed.rest).map fun p =>
                { p with out := fed.out ++ p.out }

/-- The chunks one after the other, each call with the room it is given. -/
def pump (caps : Nat → Nat) : Nat → LeRadioTs → List Bytes → Option Pumped
  | call, ts, [] => some ⟨ts, [], false, call⟩
  | call, ts, chunk :: chunks =>
      match pumpChunk caps (chunk.length + 1) call ts chunk with
      | none => none
      | some p =>
          if p.lost then some p
          else (pump caps p.calls p.ts chunks).map fun q => { q with out := p.out ++ q.out }

def heldBytes (ts : LeRadioTs) : Bytes :=
  if HeldBack ts then (process ts.tables ts.carry.1).1 else []

/-- What the calls gave so far, and what is to come of the rest. -/
def PumpFollows (ts : LeRadioTs) (s : Bytes) (p : Pumped) : Prop :=
  (p.lost = true ∧ ∃ ts', demuxFrom ts s = ⟨p.out, ts', true⟩) ∨
  (p.lost = false ∧ Between p.ts ∧ demuxFrom ts s = (demuxFrom p.ts []).after p.out)

theorem LoopFollows.going {outCap : Nat} {ts : LeRadioTs} {rest : Bytes} {fed : Fed}
    (follows : LoopFollows outCap ts rest [] fed)
    (going : ¬ (fed.ending = .syncLost ∨ fed.ending = .refused)) :
    Between fed.ts ∧ demuxFrom ts rest = (demuxFrom fed.ts fed.rest).after fed.out := by
  obtain ⟨add, written, ends⟩ := follows.written
  rw [List.nil_append] at written
  subst written
  rcases ends with ⟨-, read, settled, same⟩ | ⟨-, held, same⟩ | ⟨ending, -⟩
  · refine ⟨.inl settled, ?_⟩
    rw [same, read, demuxFrom_settled settled, demux, Demuxed.after, List.append_nil]
  · exact ⟨.inr held, same⟩
  · exact absurd (.inl ending) going

theorem LoopFollows.gone {outCap : Nat} {ts : LeRadioTs} {rest : Bytes} {fed : Fed}
    (follows : LoopFollows outCap ts rest [] fed)
    (gone : fed.ending = .syncLost ∨ fed.ending = .refused) :
    demuxFrom ts rest = ⟨fed.out, fed.ts, true⟩ := by
  obtain ⟨add, written, ends⟩ := follows.written
  rw [List.nil_append] at written
  subst written
  rcases ends with ⟨ending, -⟩ | ⟨ending, -⟩ | ⟨-, same⟩
  · rw [ending] at gone
    exact gone.elim nofun nofun
  · rw [ending] at gone
    exact gone.elim nofun nofun
  · exact same

theorem leRadioTsFeed_follows {ts : LeRadioTs} {input : Bytes} {outCap : Nat} {fed : Fed}
    (between : Between ts) (room : leRadioTsPayload ≤ outCap)
    (returned : leRadioTsFeed ts input outCap = some fed) : LoopFollows outCap ts input [] fed := by
  rw [leRadioTsFeed, if_neg (Nat.not_lt.mpr room)] at returned
  exact feedLoop_follows between returned

theorem pumpChunk_follows {caps : Nat → Nat} (room : ∀ n, leRadioTsPayload ≤ caps n) {fuel : Nat}
    {call : Nat} {ts : LeRadioTs} {rest : Bytes} (between : Between ts)
    (enough : rest.length < fuel) :
    ∃ p, pumpChunk caps fuel call ts rest = some p ∧ PumpFollows ts rest p := by
  induction fuel generalizing call ts rest with
  | zero => exact absurd enough (Nat.not_lt_zero _)
  | succ fuel ih =>
      rw [pumpChunk]
      split
      case isTrue none =>
        subst none
        exact ⟨_, rfl, .inr ⟨rfl, between, rfl⟩⟩
      case isFalse some_ =>
        obtain ⟨fed, returned⟩ := leRadioTsFeed_returns ts rest (caps call)
        have follows := leRadioTsFeed_follows between (room call) returned
        have reads := leRadioTsFeed_reads between some_ (room call) returned
        rw [returned]
        dsimp only
        split
        case isTrue gone => exact ⟨_, rfl, .inl ⟨rfl, fed.ts, follows.gone gone⟩⟩
        case isFalse going =>
          obtain ⟨between', same⟩ := follows.going going
          obtain ⟨p, pumped, later⟩ := @ih (call + 1) fed.ts fed.rest between' (by omega)
          refine ⟨{ p with out := fed.out ++ p.out }, by rw [pumped]; rfl, ?_⟩
          rcases later with ⟨lost, ts', whole⟩ | ⟨kept, between'', whole⟩
          · exact .inl ⟨lost, ts', by rw [same, whole]; rfl⟩
          · exact .inr ⟨kept, between'', by rw [same, whole, Demuxed.after_after]⟩

theorem pump_follows {caps : Nat → Nat} (room : ∀ n, leRadioTsPayload ≤ caps n) {call : Nat}
    {ts : LeRadioTs} {chunks : List Bytes} (between : Between ts) :
    ∃ p, pump caps call ts chunks = some p ∧ PumpFollows ts chunks.flatten p := by
  induction chunks generalizing call ts with
  | nil => exact ⟨_, rfl, .inr ⟨rfl, between, rfl⟩⟩
  | cons chunk chunks ih =>
      obtain ⟨p, pumped, follows⟩ := @pumpChunk_follows caps room (chunk.length + 1) call ts chunk
        between (Nat.lt_succ_self chunk.length)
      rw [pump, pumped, List.flatten_cons]
      dsimp only
      rcases follows with ⟨lost, ts', same⟩ | ⟨kept, between', same⟩
      · rw [if_pos lost]
        refine ⟨p, rfl, .inl ⟨lost, ts', ?_⟩⟩
        rw [demuxFrom_append, same, Demuxed.on, if_pos rfl]
      · rw [if_neg (by rw [kept]; rintro ⟨⟩)]
        obtain ⟨q, all, later⟩ := @ih p.calls p.ts between'
        have joined : demuxFrom ts (chunk ++ chunks.flatten) =
            (demuxFrom p.ts chunks.flatten).after p.out := by
          rw [demuxFrom_append, same, Demuxed.after_on, ← demuxFrom_append, List.nil_append]
        refine ⟨{ q with out := p.out ++ q.out }, by rw [all]; rfl, ?_⟩
        rcases later with ⟨lost, ts', whole⟩ | ⟨kept', between'', whole⟩
        · exact .inl ⟨lost, ts', by rw [joined, whole]; rfl⟩
        · exact .inr ⟨kept', between'', by rw [joined, whole, Demuxed.after_after]⟩

/-! ### The law -/

theorem demuxFrom_nil {ts : LeRadioTs} (between : Between ts) :
    ∃ ts', demuxFrom ts [] = ⟨heldBytes ts, ts', false⟩ ∧ Settled ts' := by
  rw [demuxFrom, heldBytes]
  split
  case isTrue held =>
    refine ⟨ts.turnedOver, ?_, turnedOver_settled held⟩
    rw [settle, if_pos held.1, if_neg (Nat.not_lt.mpr held.2.1), if_pos held.2.2, Demuxed.on,
      if_neg (by rintro ⟨⟩), demux, Demuxed.after, List.append_nil]
    rfl
  case isFalse free => exact ⟨ts, rfl, between.resolve_right free⟩

theorem leRadioTsFeed_nil {ts : LeRadioTs} (between : Between ts) {outCap : Nat}
    (room : leRadioTsPayload ≤ outCap) :
    ∃ last, leRadioTsFeed ts [] outCap = some last ∧ last.ending = .needInput ∧
      demuxFrom ts [] = ⟨last.out, last.ts, false⟩ := by
  obtain ⟨last, returned⟩ := leRadioTsFeed_returns ts [] outCap
  obtain ⟨add, written, ends⟩ := (leRadioTsFeed_follows between room returned).written
  obtain ⟨ts', nothing, -⟩ := demuxFrom_nil between
  rw [leRadioTsFeed, if_neg (Nat.not_lt.mpr room)] at returned
  have limit := ts.carry.2
  have quota : audioAhead ts [] ≤ outCap := by
    have packet : leRadioTsPacket = 188 := rfl
    have payload : leRadioTsPayload = 184 := rfl
    rw [audioAhead_eq, ahead, List.length_nil]
    omega
  have free := feedLoop_room (by rw [List.length_nil, Nat.zero_add]; exact quota) returned
  rw [List.nil_append] at written
  subst written
  rcases ends with ⟨ending, -, -, same⟩ | ⟨ending, -⟩ | ⟨-, same⟩
  · exact ⟨last, by rw [leRadioTsFeed, if_neg (Nat.not_lt.mpr room), returned], ending, same⟩
  · exact absurd ending free
  · rw [same] at nothing
    exact absurd (congrArg Demuxed.lost nothing) nofun

/-- The calls gave what the whole stream gives at once, but for a packet that waits for room. -/
structure SameAudio (whole : Fed) (p : Pumped) : Prop where
  verdict : p.lost = true ↔ whole.ending = .syncLost
  lost : p.lost = true → p.out = whole.out
  waits : p.lost = false → p.out ++ heldBytes p.ts = whole.out
  /-- One more call fetches it. -/
  fetched : p.lost = false → ∀ outCap, leRadioTsPayload ≤ outCap →
    ∃ last, leRadioTsFeed p.ts [] outCap = some last ∧ last.ending = .needInput ∧
      p.out ++ last.out = whole.out ∧ last.ts = whole.ts

theorem reset_settled : Settled leRadioTsReset := by
  rw [Settled]
  decide

def Round.out : Round → Bytes
  | .stop fed => fed.out
  | .go _ _ out => out

theorem resync_out (ts : LeRadioTs) (rest out : Bytes) : (resync ts rest out).out = out := by
  rw [resync]
  generalize ts.carry.fill (leRadioTsPacket + 1) (Nat.le_refl _) rest = filled
  dsimp only
  split
  · rfl
  split
  · generalize (if leRadioTsPacket < filled.1.1.length
      then filled.1.1.length - leRadioTsPacket else 1) = count
    split
    · rfl
    · rfl
  · rfl

theorem feedRound_bounded {outCap : Nat} (ts : LeRadioTs) (rest : Bytes) {out : Bytes}
    (room : out.length ≤ outCap) : (feedRound outCap ts rest out).out.length ≤ outCap := by
  rw [feedRound]
  split
  · generalize ts.carry.fill leRadioTsPacket (Nat.le_succ _) rest = filled
    dsimp only
    split
    · exact room
    split
    · split
      · exact room
      · rw [Round.out, List.length_append]
        omega
    · rw [resync_out]
      exact room
  · rw [resync_out]
    exact room

theorem feedLoop_bounded {outCap fuel : Nat} {ts : LeRadioTs} {rest out : Bytes} {fed : Fed}
    (room : out.length ≤ outCap) (returned : feedLoop outCap fuel ts rest out = some fed) :
    fed.out.length ≤ outCap := by
  induction fuel generalizing ts rest out with
  | zero => cases returned
  | succ fuel ih =>
      have bounded := feedRound_bounded ts rest room
      rw [feedLoop] at returned
      generalize feedRound outCap ts rest out = round at bounded returned
      cases round with
      | stop fed' =>
          obtain rfl := Option.some.inj returned
          exact bounded
      | go ts' rest' out' => exact ih bounded returned

theorem leRadioTsFeed_bounded (ts : LeRadioTs) (input : Bytes) (outCap : Nat) :
    ∃ fed, leRadioTsFeed ts input outCap = some fed ∧ fed.out.length ≤ outCap := by
  obtain ⟨fed, returned⟩ := leRadioTsFeed_returns ts input outCap
  refine ⟨fed, returned, ?_⟩
  rw [leRadioTsFeed] at returned
  split at returned
  · obtain rfl := Option.some.inj returned
    exact Nat.zero_le _
  · exact feedLoop_bounded (Nat.zero_le _) returned

theorem leRadioTsFeed_whole {s : Bytes} {wholeCap : Nat} {whole : Fed}
    (payload : leRadioTsPayload ≤ wholeCap) (unbounded : s.length ≤ wholeCap)
    (returned : leRadioTsFeed leRadioTsReset s wholeCap = some whole) :
    (whole.ending = .needInput ∧ demuxFrom leRadioTsReset s = ⟨whole.out, whole.ts, false⟩) ∨
    (whole.ending = .syncLost ∧ demuxFrom leRadioTsReset s = ⟨whole.out, whole.ts, true⟩) := by
  obtain ⟨add, written, ends⟩ :=
    (leRadioTsFeed_follows (.inl reset_settled) payload returned).written
  rw [leRadioTsFeed, if_neg (Nat.not_lt.mpr payload)] at returned
  have free := feedLoop_room (by
    have nothing : leRadioTsReset.carry.1.length = 0 := rfl
    rw [List.length_nil, audioAhead_eq, ahead, nothing]
    omega) returned
  rw [List.nil_append] at written
  subst written
  rcases ends with ⟨ending, -, -, same⟩ | ⟨ending, -⟩ | ⟨ending, same⟩
  · exact .inl ⟨ending, same⟩
  · exact absurd ending free
  · exact .inr ⟨ending, same⟩

/-- However the stream is cut and whatever room the calls have. -/
theorem leRadioTs_chunks (chunks : List Bytes) (caps : Nat → Nat) (wholeCap : Nat)
    (room : ∀ n, leRadioTsPayload ≤ caps n) (payload : leRadioTsPayload ≤ wholeCap)
    (unbounded : chunks.flatten.length ≤ wholeCap) :
    (∃ whole p, leRadioTsFeed leRadioTsReset chunks.flatten wholeCap = some whole ∧
      pump caps 0 leRadioTsReset chunks = some p ∧ SameAudio whole p) ∧
    (∀ (ts : LeRadioTs) (input : Bytes) (outCap : Nat),
      ∃ fed, leRadioTsFeed ts input outCap = some fed ∧ fed.out.length ≤ outCap) ∧
    (∀ (ts : TsTables) (pkt : Bytes), (process ts pkt).1 ≠ [] →
      process (process ts pkt).2 pkt = process ts pkt) := by
  refine ⟨?_, leRadioTsFeed_bounded, fun ts pkt => process_again⟩
  obtain ⟨whole, returned⟩ := leRadioTsFeed_returns leRadioTsReset chunks.flatten wholeCap
  obtain ⟨p, pumped, follows⟩ := @pump_follows caps room 0 leRadioTsReset chunks
    (.inl reset_settled)
  refine ⟨whole, p, returned, pumped, ?_⟩
  have reads := leRadioTsFeed_whole payload unbounded returned
  rcases follows with ⟨lost, ts', same⟩ | ⟨kept, between, same⟩
  · have gone : whole.ending = .syncLost ∧ p.out = whole.out := by
      rcases reads with ⟨-, whole'⟩ | ⟨ending, whole'⟩
      · exact absurd (congrArg Demuxed.lost (same.symm.trans whole')) (by rintro ⟨⟩)
      · exact ⟨ending, congrArg Demuxed.out (same.symm.trans whole')⟩
    exact ⟨iff_of_true lost gone.1, fun _ => gone.2,
      fun kept => absurd (kept.symm.trans lost) (by rintro ⟨⟩),
      fun kept => absurd (kept.symm.trans lost) (by rintro ⟨⟩)⟩
  · obtain ⟨ts', nothing, -⟩ := demuxFrom_nil between
    rw [nothing] at same
    have read : whole.ending = .needInput ∧ p.out ++ heldBytes p.ts = whole.out ∧
        ts' = whole.ts := by
      rcases reads with ⟨ending, whole'⟩ | ⟨-, whole'⟩
      · exact ⟨ending, congrArg Demuxed.out (same.symm.trans whole'),
          congrArg Demuxed.ts (same.symm.trans whole')⟩
      · exact absurd (congrArg Demuxed.lost (same.symm.trans whole')) (by rintro ⟨⟩)
    refine ⟨iff_of_false (by rw [kept]; rintro ⟨⟩) (by rw [read.1]; rintro ⟨⟩),
      fun lost => absurd (kept.symm.trans lost) (by rintro ⟨⟩), fun _ => read.2.1, fun _ outCap room => ?_⟩
    obtain ⟨last, called, ending, given⟩ := leRadioTsFeed_nil between room
    rw [nothing] at given
    exact ⟨last, called, ending, (congrArg (p.out ++ Demuxed.out ·) given).symm.trans read.2.1,
      (congrArg Demuxed.ts given).symm.trans read.2.2⟩

def tsPacket (header payload : Bytes) : Bytes :=
  0x47 :: header ++ payload ++ List.replicate (leRadioTsPayload - payload.length) 0xFF

/-- The tables, a packet that starts audio and one that continues it. -/
def shortStream : Bytes :=
  tsPacket [0x40, 0x00, 0x10] [0, 0x00, 0xB0, 13, 0, 1, 0xC1, 0, 0, 0, 1, 0xE1, 0x00] ++
  tsPacket [0x41, 0x00, 0x10]
    [0, 0x02, 0xB0, 18, 0, 1, 0xC1, 0, 0, 0xE1, 0x01, 0xF0, 0, 0x0F, 0xE1, 0x01, 0xF0, 0] ++
  tsPacket [0x41, 0x01, 0x10] [0, 0, 1, 0xC0, 0, 0, 0x80, 0, 0] ++
  tsPacket [0x01, 0x01, 0x10] []

theorem leRadioTs_chunks_short :
    (∃ whole p, leRadioTsFeed leRadioTsReset [shortStream].flatten 752 = some whole ∧
      pump (fun _ => 184) 0 leRadioTsReset [shortStream] = some p ∧ SameAudio whole p) ∧
    (∀ (ts : LeRadioTs) (input : Bytes) (outCap : Nat),
      ∃ fed, leRadioTsFeed ts input outCap = some fed ∧ fed.out.length ≤ outCap) ∧
    (∀ (ts : TsTables) (pkt : Bytes), (process ts pkt).1 ≠ [] →
      process (process ts pkt).2 pkt = process ts pkt) :=
  leRadioTs_chunks [shortStream] (fun _ => 184) 752 (fun _ => by decide) (by decide)
    (by decide +kernel)

/-- The last packet waits for room when the whole input has been taken. -/
theorem leRadioTs_chunks_heldBack :
    ¬ ∀ (chunks : List Bytes) (caps : Nat → Nat) (wholeCap : Nat),
      (∀ n, leRadioTsPayload ≤ caps n) → leRadioTsPayload ≤ wholeCap →
      chunks.flatten.length ≤ wholeCap →
      ∃ whole p, leRadioTsFeed leRadioTsReset chunks.flatten wholeCap = some whole ∧
        pump caps 0 leRadioTsReset chunks = some p ∧ p.out = whole.out := by
  intro same
  obtain ⟨whole, p, fed, pumped, out⟩ := same [shortStream] (fun _ => 184) 752
    (fun _ => by decide) (by decide) (by decide +kernel)
  have all : (leRadioTsFeed leRadioTsReset [shortStream].flatten 752).map (·.out.length) =
      some 359 := by
    decide +kernel
  have less : (pump (fun _ => 184) 0 leRadioTsReset [shortStream]).map (·.out.length) =
      some 175 := by
    decide +kernel
  rw [fed, Option.map_some, ← out] at all
  rw [pumped, Option.map_some, all] at less
  exact absurd less (by decide)

end LibreEcho.Radio
