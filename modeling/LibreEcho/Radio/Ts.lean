import Mathlib

/-!
The transport-stream demultiplexer of `radio_ts.c`.

A packet is collected in the carry buffer and turned into audio bytes; off the packet grid the
buffer slides by one byte until two sync bytes stand a packet apart.
-/
namespace LibreEcho.Radio

abbrev Bytes := List UInt8

def leRadioTsPacket : Nat := 188
def leRadioTsPayload : Nat := 184
def leRadioTsResyncPackets : Nat := 3

/-- What the tables of the stream have told so far; -1 until then. -/
structure TsTables where
  pmtPid : Int
  audioPid : Int
  inPes : Bool
deriving DecidableEq, Repr

abbrev Carry := { bytes : Bytes // bytes.length ≤ leRadioTsPacket + 1 }

structure LeRadioTs where
  tables : TsTables
  synced : Bool
  lost : Nat
  carry : Carry
deriving DecidableEq

def leRadioTsReset : LeRadioTs where
  tables := ⟨-1, -1, false⟩
  synced := false
  lost := 0
  carry := ⟨[], Nat.zero_le _⟩

/-! ### Packets -/

/-- `p[i]` of a buffer, as a number. -/
def at_ (p : Bytes) (i : Nat) : Nat :=
  (p.getD i 0).toNat

def pidAt (p : Bytes) (i : Nat) : Nat :=
  at_ p i % 0x20 * 256 + at_ p (i + 1)

def lengthAt (p : Bytes) (i : Nat) : Nat :=
  at_ p i % 0x10 * 256 + at_ p (i + 1)

/-- The payload of a packet, `none` for a packet that carries none. -/
def payloadSpan (pkt : Bytes) : Option Bytes :=
  let control := at_ pkt 3 / 16 % 4
  if control = 0 ∨ control = 2 then none
  else if control = 3 then
    let af := at_ pkt 4
    if leRadioTsPacket < 5 + af then none
    else if leRadioTsPacket - 5 - af = 0 then none
    else some ((pkt.drop (5 + af)).take (leRadioTsPacket - 5 - af))
  else some ((pkt.drop 4).take leRadioTsPayload)

/-- The first entry of the program table that is no network entry. -/
def patEntry (pay : Bytes) (stop : Nat) : Nat → Nat → Option Int
  | 0, _ => none
  | fuel + 1, i =>
      if i + 4 ≤ stop then
        if at_ pay i * 256 + at_ pay (i + 1) ≠ 0 then some (pidAt pay (i + 2))
        else patEntry pay stop fuel (i + 4)
      else none

def parsePat (ts : TsTables) (pay : Bytes) : TsTables :=
  if pay.length < 1 then ts
  else
    let ptr := at_ pay 0
    if pay.length < 1 + ptr + 12 then ts
    else
      let pay := pay.drop (1 + ptr)
      if at_ pay 0 ≠ 0 then ts
      else
        let section_ := lengthAt pay 1
        if section_ < 9 ∨ pay.length < 3 + section_ then ts
        else
          match patEntry pay (3 + section_ - 4) section_ 8 with
          | none => ts
          | some pid => { ts with pmtPid := pid }

/-- The packet identifier of the first audio stream of the program map. -/
def pmtEntry (pay : Bytes) (stop : Nat) : Nat → Nat → Option Int
  | 0, _ => none
  | fuel + 1, i =>
      if i + 5 ≤ stop then
        let type := at_ pay i
        if type = 0x0F ∨ type = 0x03 ∨ type = 0x04 then some (pidAt pay (i + 1))
        else pmtEntry pay stop fuel (i + (5 + lengthAt pay (i + 3)))
      else none

def parsePmt (ts : TsTables) (pay : Bytes) : TsTables :=
  if pay.length < 1 then ts
  else
    let ptr := at_ pay 0
    if pay.length < 1 + ptr + 13 then ts
    else
      let pay := pay.drop (1 + ptr)
      if at_ pay 0 ≠ 2 then ts
      else
        let section_ := lengthAt pay 1
        if section_ < 13 ∨ pay.length < 3 + section_ then ts
        else
          match pmtEntry pay (3 + section_ - 4) section_ (12 + lengthAt pay 10) with
          | none => ts
          | some pid =>
              { ts with
                inPes := if ts.audioPid ≠ pid then false else ts.inPes
                audioPid := pid }

def process (ts : TsTables) (pkt : Bytes) : Bytes × TsTables :=
  if at_ pkt 3 / 64 ≠ 0 then ([], ts)
  else
    match payloadSpan pkt with
    | none => ([], ts)
    | some pay =>
        let pid : Int := pidAt pkt 1
        let start := at_ pkt 1 / 64 % 2 ≠ 0
        if pid = 0 then ([], if start then parsePat ts pay else ts)
        else if pid = ts.pmtPid then ([], if start then parsePmt ts pay else ts)
        else if ts.audioPid < 0 ∨ pid ≠ ts.audioPid then ([], ts)
        else if start then
          if pay.length < 9 ∨ at_ pay 0 ≠ 0 ∨ at_ pay 1 ≠ 0 ∨ at_ pay 2 ≠ 1 then
            ([], { ts with inPes := false })
          else
            let header := 9 + at_ pay 8
            if pay.length < header then ([], { ts with inPes := false })
            else (pay.drop header, { ts with inPes := true })
        else if ts.inPes = false then ([], ts)
        else (pay, ts)

/-! ### Feeding -/

/-- The buffer filled up to a mark from the input, and the input behind that. -/
def Carry.fill (mark : Nat) (fits : mark ≤ leRadioTsPacket + 1) (carry : Carry) (rest : Bytes) :
    Carry × Bytes :=
  (⟨carry.1 ++ rest.take (mark - carry.1.length), by
      have := carry.2
      rw [List.length_append, List.length_take]
      omega⟩,
    rest.drop (mark - carry.1.length))

def Carry.drop (count : Nat) (carry : Carry) : Carry :=
  ⟨carry.1.drop count, by
    have := carry.2
    rw [List.length_drop]
    omega⟩

/-- The offset of the first sync byte with another one a packet behind it. -/
def findLock (carry : Bytes) : Option Nat :=
  (List.range (carry.length - leRadioTsPacket)).find? fun i =>
    at_ carry i = 0x47 ∧ at_ carry (i + leRadioTsPacket) = 0x47

inductive FeedEnd where
  | needInput
  | outFull
  | syncLost
  /-- The output cannot hold a payload. -/
  | refused
deriving DecidableEq, Repr

/-- `rest` is the input not taken and `out` what was written. Its length is returned, for the last
two endings -1. -/
structure Fed where
  ts : LeRadioTs
  rest : Bytes
  out : Bytes
  ending : FeedEnd

/-- What one round of the loop does. -/
inductive Round where
  | stop (fed : Fed)
  | go (ts : LeRadioTs) (rest out : Bytes)

/-- Off the grid a whole packet plus the next packet's sync byte is needed. -/
def resync (ts : LeRadioTs) (rest out : Bytes) : Round :=
  let filled := ts.carry.fill (leRadioTsPacket + 1) (Nat.le_refl _) rest
  if filled.1.1.length < leRadioTsPacket + 1 then
    .stop ⟨{ ts with carry := filled.1 }, filled.2, out, .needInput⟩
  else
    match findLock filled.1.1 with
    | none =>
        let count := if leRadioTsPacket < filled.1.1.length
          then filled.1.1.length - leRadioTsPacket else 1
        let ts := { ts with lost := ts.lost + count, carry := filled.1.drop count }
        if leRadioTsResyncPackets * leRadioTsPacket < ts.lost then
          .stop ⟨ts, filled.2, out, .syncLost⟩
        else .go ts filled.2 out
    | some i =>
        .go { ts with lost := ts.lost + i, carry := filled.1.drop i, synced := true } filled.2 out

def feedRound (outCap : Nat) (ts : LeRadioTs) (rest out : Bytes) : Round :=
  if ts.synced then
    let filled := ts.carry.fill leRadioTsPacket (Nat.le_succ _) rest
    if filled.1.1.length < leRadioTsPacket then
      .stop ⟨{ ts with carry := filled.1 }, filled.2, out, .needInput⟩
    else if at_ filled.1.1 0 = 0x47 then
      let add := process ts.tables filled.1.1
      if outCap - out.length < add.1.length then
        .stop ⟨{ ts with tables := add.2, carry := filled.1 }, filled.2, out, .outFull⟩
      else
        .go { ts with tables := add.2, carry := filled.1.drop leRadioTsPacket } filled.2
          (out ++ add.1)
    else resync { ts with synced := false, lost := 0, carry := filled.1 } filled.2 out
  else resync ts rest out

/-- `none` when the rounds do not suffice. -/
def feedLoop (outCap : Nat) : Nat → LeRadioTs → Bytes → Bytes → Option Fed
  | 0, _, _, _ => none
  | fuel + 1, ts, rest, out =>
      match feedRound outCap ts rest out with
      | .stop fed => some fed
      | .go ts rest out => feedLoop outCap fuel ts rest out

/-- `consumed` is the length of the input without `rest`; it stays 0 when sync is lost. -/
def leRadioTsFeed (ts : LeRadioTs) (input : Bytes) (outCap : Nat) : Option Fed :=
  if outCap < leRadioTsPayload then some ⟨ts, input, [], .refused⟩
  else feedLoop outCap (2 * (ts.carry.1.length + input.length) + 2) ts input []

end LibreEcho.Radio

/-!
The demultiplexer as a machine that is fed one byte at a time, and the loop of `le_radio_ts_feed`
against it.

The machine never waits with a packet; the loop holds one back when its output is full, and turns
it into the same bytes when it is called again.
-/
namespace LibreEcho.Radio

/-! ### The machine -/

structure Demuxed where
  out : Bytes
  ts : LeRadioTs
  lost : Bool

def settle (ts : LeRadioTs) : Demuxed :=
  if ts.synced then
    if ts.carry.1.length < leRadioTsPacket then ⟨[], ts, false⟩
    else if at_ ts.carry.1 0 = 0x47 then
      let add := process ts.tables ts.carry.1
      ⟨add.1, { ts with tables := add.2, carry := ts.carry.drop leRadioTsPacket }, false⟩
    else ⟨[], { ts with synced := false, lost := 0 }, false⟩
  else if ts.carry.1.length < leRadioTsPacket + 1 then ⟨[], ts, false⟩
  else if at_ ts.carry.1 0 = 0x47 ∧ at_ ts.carry.1 leRadioTsPacket = 0x47 then
    let add := process ts.tables ts.carry.1
    ⟨add.1, { ts with
      tables := add.2, synced := true, carry := ts.carry.drop leRadioTsPacket }, false⟩
  else
    ⟨[], { ts with lost := ts.lost + 1, carry := ts.carry.drop 1 },
      leRadioTsResyncPackets * leRadioTsPacket < ts.lost + 1⟩

/-- The bytes are put into the buffer as far as it has room. -/
def LeRadioTs.take (ts : LeRadioTs) (s : Bytes) : LeRadioTs :=
  { ts with carry := (ts.carry.fill (leRadioTsPacket + 1) (Nat.le_refl _) s).1 }

def Demuxed.after (front : Bytes) (d : Demuxed) : Demuxed :=
  { d with out := front ++ d.out }

def demux (ts : LeRadioTs) : Bytes → Demuxed
  | [] => ⟨[], ts, false⟩
  | b :: s =>
      let first := settle (ts.take [b])
      if first.lost then first else (demux first.ts s).after first.out

def Demuxed.on (d : Demuxed) (s : Bytes) : Demuxed :=
  if d.lost then d else (demux d.ts s).after d.out

def LeRadioTs.mark (ts : LeRadioTs) : Nat :=
  if ts.synced then leRadioTsPacket else leRadioTsPacket + 1

def Settled (ts : LeRadioTs) : Prop :=
  ts.carry.1.length < ts.mark

def HeldBack (ts : LeRadioTs) : Prop :=
  ts.synced = true ∧ leRadioTsPacket ≤ ts.carry.1.length ∧ at_ ts.carry.1 0 = 0x47

instance (ts : LeRadioTs) : Decidable (HeldBack ts) :=
  inferInstanceAs (Decidable (_ ∧ _))

/-- What becomes of the input from a state between two calls. -/
def demuxFrom (ts : LeRadioTs) (s : Bytes) : Demuxed :=
  if HeldBack ts then (settle ts).on s else demux ts s

theorem Demuxed.after_nil (d : Demuxed) : d.after [] = d := rfl

theorem Demuxed.after_after (d : Demuxed) (front middle : Bytes) :
    (d.after middle).after front = d.after (front ++ middle) := by
  simp only [Demuxed.after, List.append_assoc]

theorem Demuxed.after_on (d : Demuxed) (front s : Bytes) :
    (d.after front).on s = (d.on s).after front := by
  rw [Demuxed.on, Demuxed.on]
  by_cases lost : d.lost = true
  · rw [if_pos lost, if_pos (by exact lost)]
  · rw [if_neg lost, if_neg (by exact lost), Demuxed.after_after]
    rfl

theorem demux_append (ts : LeRadioTs) (s t : Bytes) : demux ts (s ++ t) = (demux ts s).on t := by
  induction s generalizing ts with
  | nil => rfl
  | cons b s ih =>
      rw [List.cons_append, demux, demux]
      by_cases lost : (settle (ts.take [b])).lost = true
      · rw [if_pos lost, if_pos lost, Demuxed.on, if_pos lost]
      · rw [if_neg lost, if_neg lost, ih, Demuxed.after_on]

theorem Demuxed.on_append (d : Demuxed) (s t : Bytes) : d.on (s ++ t) = (d.on s).on t := by
  by_cases lost : d.lost = true
  · rw [Demuxed.on, if_pos lost, Demuxed.on.eq_def d s, if_pos lost, Demuxed.on, if_pos lost]
  · rw [Demuxed.on, if_neg lost, Demuxed.on.eq_def d s, if_neg lost, demux_append,
      Demuxed.after_on]

theorem demuxFrom_append (ts : LeRadioTs) (s t : Bytes) :
    demuxFrom ts (s ++ t) = (demuxFrom ts s).on t := by
  rw [demuxFrom, demuxFrom]
  split
  · exact Demuxed.on_append _ s t
  · exact demux_append ts s t

/-! ### Filling the buffer -/

theorem take_carry {ts : LeRadioTs} {s : Bytes}
    (room : ts.carry.1.length + s.length ≤ leRadioTsPacket + 1) :
    (ts.take s).carry.1 = ts.carry.1 ++ s := by
  rw [LeRadioTs.take, Carry.fill]
  dsimp only
  rw [List.take_of_length_le (by omega)]

theorem take_take {ts : LeRadioTs} {s t : Bytes}
    (room : ts.carry.1.length + (s ++ t).length ≤ leRadioTsPacket + 1) :
    (ts.take s).take t = ts.take (s ++ t) := by
  rw [List.length_append] at room
  have front := @take_carry ts s (by omega)
  have same : ((ts.take s).take t).carry = (ts.take (s ++ t)).carry := by
    refine Subtype.ext ?_
    rw [take_carry (by rw [front, List.length_append]; omega), front,
      take_carry (by rw [List.length_append]; omega), List.append_assoc]
  exact congrArg (fun carry => { ts with carry := carry }) same

theorem settle_settled {ts : LeRadioTs} (settled : Settled ts) : settle ts = ⟨[], ts, false⟩ := by
  rw [Settled, LeRadioTs.mark] at settled
  rw [settle]
  split
  case isTrue synced =>
    rw [if_pos synced] at settled
    rw [if_pos settled]
  case isFalse synced =>
    rw [if_neg synced] at settled
    rw [if_pos settled]

theorem mark_le (ts : LeRadioTs) : ts.mark ≤ leRadioTsPacket + 1 := by
  rw [LeRadioTs.mark]
  split
  · exact Nat.le_succ _
  · exact Nat.le_refl _

theorem demux_short {ts : LeRadioTs} {s : Bytes} (short : ts.carry.1.length + s.length < ts.mark) :
    demux ts s = ⟨[], ts.take s, false⟩ := by
  have mark := mark_le ts
  induction s generalizing ts with
  | nil =>
      have same : ts.take [] = ts := by
        have carry := @take_carry ts [] (by rw [List.length_nil]; omega)
        rw [List.append_nil] at carry
        exact congrArg (fun carry => { ts with carry := carry }) (Subtype.ext carry)
      rw [demux, same]
  | cons b s ih =>
      rw [List.length_cons] at short
      have carry := @take_carry ts [b] (by rw [List.length_singleton]; omega)
      have longer := congrArg List.length carry
      rw [List.length_append, List.length_singleton] at longer
      have same : (ts.take [b]).mark = ts.mark := rfl
      have first := @settle_settled (ts.take [b]) (by rw [Settled, same]; omega)
      have later := @ih (ts.take [b]) (by rw [same]; omega) mark
      rw [demux, first, if_neg (by exact nofun)]
      dsimp only
      rw [later, take_take (by rw [List.length_append, List.length_singleton]; omega)]
      rfl

theorem demux_full {ts : LeRadioTs} {s t : Bytes} (some_ : s ≠ [])
    (full : ts.carry.1.length + s.length = ts.mark) :
    demux ts (s ++ t) = (settle (ts.take s)).on t := by
  have mark := mark_le ts
  obtain ⟨front, b, rfl⟩ := List.eq_nil_or_concat s |>.resolve_left some_
  rw [List.concat_eq_append] at full ⊢
  rw [List.length_append, List.length_singleton] at full
  rw [List.append_assoc, demux_append, demux_short (by omega), Demuxed.on, if_neg (by exact nofun),
    Demuxed.after_nil, List.singleton_append, demux,
    take_take (by rw [List.length_append, List.length_singleton]; omega), Demuxed.on]

theorem fill_demux {ts : LeRadioTs} {mark : Nat} (at_mark : ts.mark = mark)
    (fits : mark ≤ leRadioTsPacket + 1) (settled : Settled ts) (rest : Bytes) :
    ((ts.carry.fill mark fits rest).1.1.length < mark →
      (ts.carry.fill mark fits rest).2 = [] ∧
      demux ts rest = ⟨[], { ts with carry := (ts.carry.fill mark fits rest).1 }, false⟩) ∧
    (¬ (ts.carry.fill mark fits rest).1.1.length < mark →
      (ts.carry.fill mark fits rest).1.1.length = mark ∧
      demux ts rest = (settle { ts with carry := (ts.carry.fill mark fits rest).1 }).on
        (ts.carry.fill mark fits rest).2) := by
  rw [Settled, at_mark] at settled
  have length : (ts.carry.fill mark fits rest).1.1.length =
      ts.carry.1.length + min (mark - ts.carry.1.length) rest.length := by
    rw [Carry.fill, List.length_append, List.length_take]
  have carried : { ts with carry := (ts.carry.fill mark fits rest).1 } =
      ts.take (rest.take (mark - ts.carry.1.length)) := by
    have cut := List.length_take_le (mark - ts.carry.1.length) rest
    refine congrArg (fun carry => { ts with carry := carry }) (Subtype.ext ?_)
    exact (take_carry (by omega)).symm
  constructor
  · intro short
    rw [length] at short
    have whole : rest.take (mark - ts.carry.1.length) = rest := List.take_of_length_le (by omega)
    refine ⟨List.drop_eq_nil_of_le (by omega), ?_⟩
    rw [carried, whole]
    exact demux_short (by omega)
  · intro full
    rw [length] at full
    have some_ : rest.take (mark - ts.carry.1.length) ≠ [] := by
      rw [← List.length_pos_iff, List.length_take]
      omega
    refine ⟨by omega, ?_⟩
    rw [carried]
    refine Eq.trans ?_ (demux_full some_ (by rw [List.length_take]; omega))
    rw [Carry.fill, List.take_append_drop]

/-! ### Packets -/

theorem payloadSpan_length {pkt pay : Bytes} (found : payloadSpan pkt = some pay) :
    pay.length ≤ leRadioTsPayload := by
  rw [payloadSpan] at found
  split at found
  · cases found
  split at found
  · dsimp only at found
    split at found
    · cases found
    split at found
    · cases found
    · obtain rfl := Option.some.inj found
      rw [List.length_take, leRadioTsPacket, leRadioTsPayload]
      omega
  · obtain rfl := Option.some.inj found
    exact List.length_take_le _ _

theorem process_length (ts : TsTables) (pkt : Bytes) :
    (process ts pkt).1.length ≤ leRadioTsPayload := by
  rw [process]
  split
  · exact Nat.zero_le _
  split
  · exact Nat.zero_le _
  next pay found =>
    have limit := payloadSpan_length found
    dsimp only
    split
    · exact Nat.zero_le _
    split
    · exact Nat.zero_le _
    split
    · exact Nat.zero_le _
    split
    · split
      · exact Nat.zero_le _
      split
      · exact Nat.zero_le _
      · rw [List.length_drop]
        omega
    split
    · exact Nat.zero_le _
    · exact limit

theorem process_again {ts : TsTables} {pkt : Bytes} (audio : (process ts pkt).1 ≠ []) :
    process (process ts pkt).2 pkt = process ts pkt := by
  generalize result : process ts pkt = r at audio ⊢
  rw [process] at result
  split at result
  case isTrue =>
    subst result
    exact absurd rfl audio
  case isFalse clear =>
    split at result
    case h_1 =>
      subst result
      exact absurd rfl audio
    case h_2 pay found =>
      dsimp only at result
      split at result
      · subst result
        exact absurd rfl audio
      next notTable =>
        split at result
        · subst result
          exact absurd rfl audio
        next notMap =>
          split at result
          · subst result
            exact absurd rfl audio
          next own =>
            split at result
            case isTrue start =>
              split at result
              · subst result
                exact absurd rfl audio
              next header =>
                split at result
                · subst result
                  exact absurd rfl audio
                next whole =>
                  -- Only the mark of an open PES changed, and a start does not look at it.
                  subst result
                  rw [process, if_neg clear, found]
                  dsimp only
                  rw [if_neg notTable, if_neg notMap, if_neg own, if_pos start, if_neg header,
                    if_neg whole]
            case isFalse inside =>
              split at result
              · subst result
                exact absurd rfl audio
              next open_ =>
                subst result
                rw [process, if_neg clear, found]
                dsimp only
                rw [if_neg notTable, if_neg notMap, if_neg own, if_neg inside, if_neg open_]

/-! ### One round -/

def Between (ts : LeRadioTs) : Prop :=
  Settled ts ∨ HeldBack ts

/-- What a round does to the input, in terms of the machine. -/
inductive Follows (outCap : Nat) (ts : LeRadioTs) (rest out : Bytes) : Round → Prop where
  | needInput (fed : Fed) (ending : fed.ending = .needInput) (written : fed.out = out)
      (read : fed.rest = []) (settled : Settled fed.ts)
      (same : demuxFrom ts rest = ⟨[], fed.ts, false⟩) : Follows outCap ts rest out (.stop fed)
  | outFull (fed : Fed) (ending : fed.ending = .outFull) (written : fed.out = out)
      (held : HeldBack fed.ts) (same : demuxFrom ts rest = demuxFrom fed.ts fed.rest)
      (full : outCap - out.length < (process ts.tables fed.ts.carry.1).1.length) :
      Follows outCap ts rest out (.stop fed)
  | syncLost (fed : Fed) (ending : fed.ending = .syncLost) (written : fed.out = out)
      (same : demuxFrom ts rest = ⟨[], fed.ts, true⟩) : Follows outCap ts rest out (.stop fed)
  | go (ts' : LeRadioTs) (rest' out' add : Bytes) (written : out' = out ++ add)
      (between : Between ts') (fits : out.length ≤ outCap → out'.length ≤ outCap)
      (same : demuxFrom ts rest = (demuxFrom ts' rest').after add) :
      Follows outCap ts rest out (.go ts' rest' out')

theorem at_append {s t : Bytes} {i : Nat} (inside : i < s.length) : at_ (s ++ t) i = at_ s i := by
  rw [at_, at_, List.getD_eq_getElem?_getD, List.getD_eq_getElem?_getD,
    List.getElem?_append_left inside]

theorem demuxFrom_settled {ts : LeRadioTs} (settled : Settled ts) (s : Bytes) :
    demuxFrom ts s = demux ts s := by
  rw [demuxFrom, if_neg]
  rintro ⟨synced, full, -⟩
  rw [Settled, LeRadioTs.mark, if_pos synced] at settled
  omega

theorem findLock_full {carry : Bytes} (full : carry.length = leRadioTsPacket + 1) :
    findLock carry =
      if at_ carry 0 = 0x47 ∧ at_ carry leRadioTsPacket = 0x47 then some 0 else none := by
  rw [findLock, full, Nat.add_sub_cancel_left]
  split
  case isTrue lock => simp [lock]
  case isFalse none => simpa using none

theorem Carry.drop_zero (carry : Carry) : carry.drop 0 = carry :=
  Subtype.ext List.drop_zero

theorem resync_follows (outCap : Nat) {ts : LeRadioTs} (synced : ts.synced = false)
    (settled : Settled ts) (rest out : Bytes) :
    Follows outCap ts rest out (resync ts rest out) := by
  have mark : ts.mark = leRadioTsPacket + 1 := by
    rw [LeRadioTs.mark, synced]
    rfl
  obtain ⟨waits, looks⟩ := fill_demux mark (Nat.le_refl _) settled rest
  rw [← demuxFrom_settled settled] at waits looks
  rw [resync]
  generalize ts.carry.fill (leRadioTsPacket + 1) (Nat.le_refl _) rest = filled at waits looks ⊢
  dsimp only
  split
  case isTrue short =>
    obtain ⟨read, same⟩ := waits short
    refine .needInput _ rfl rfl read ?_ same
    rw [Settled, LeRadioTs.mark]
    dsimp only
    rw [synced]
    exact short
  case isFalse full =>
    obtain ⟨length, same⟩ := looks full
    rw [findLock_full length]
    by_cases lock : at_ filled.1.1 0 = 0x47 ∧ at_ filled.1.1 leRadioTsPacket = 0x47
    · -- The machine turns the packet over at once, the loop in its next round.
      rw [if_pos lock]
      dsimp only
      rw [Nat.add_zero, Carry.drop_zero]
      have held : HeldBack { ts with carry := filled.1, synced := true } :=
        ⟨rfl, by rw [length]; exact Nat.le_succ _, lock.1⟩
      refine .go _ _ _ [] (List.append_nil out).symm (.inr held) id ?_
      rw [same, demuxFrom, if_pos held, Demuxed.after_nil]
      refine congrArg (Demuxed.on · filled.2) ?_
      have packet : ¬ filled.1.1.length < leRadioTsPacket := by omega
      rw [settle, settle]
      dsimp only
      rw [synced, if_neg (by rintro ⟨⟩), if_neg full, if_pos lock, if_pos rfl, if_neg packet]
      exact (if_pos lock.1).symm
    · rw [if_neg lock]
      have settles : settle { ts with carry := filled.1 } =
          ⟨[], { ts with lost := ts.lost + 1, carry := filled.1.drop 1 },
            leRadioTsResyncPackets * leRadioTsPacket < ts.lost + 1⟩ := by
        rw [settle]
        dsimp only
        rw [synced, if_neg (by rintro ⟨⟩), if_neg full, if_neg lock]
      have count : (if leRadioTsPacket < filled.1.1.length
          then filled.1.1.length - leRadioTsPacket else 1) = 1 := by
        rw [length, if_pos (Nat.lt_succ_self _), Nat.add_sub_cancel_left]
      dsimp only
      rw [count]
      rw [settles] at same
      split
      case isTrue gone =>
        refine .syncLost _ rfl rfl ?_
        rw [same, Demuxed.on, if_pos (by exact decide_eq_true gone)]
        rw [decide_eq_true gone]
      case isFalse going =>
        have left : Settled { ts with lost := ts.lost + 1, carry := filled.1.drop 1 } := by
          rw [Settled, LeRadioTs.mark]
          dsimp only
          rw [synced, Carry.drop, List.length_drop, length]
          exact Nat.lt_succ_self _
        refine .go _ _ _ [] (List.append_nil out).symm (.inl left) id ?_
        rw [same, Demuxed.on, if_neg (by exact fun gone => going (of_decide_eq_true gone)),
          demuxFrom_settled left]

theorem packet_follows (outCap : Nat) {ts whole : LeRadioTs} {rest left out : Bytes}
    (held : HeldBack whole) (tables : whole.tables = ts.tables)
    (same : demuxFrom ts rest = (settle whole).on left) :
    Follows outCap ts rest out
      (let add := process whole.tables whole.carry.1
      if outCap - out.length < add.1.length then
        .stop ⟨{ whole with tables := add.2 }, left, out, .outFull⟩
      else
        .go { whole with tables := add.2, carry := whole.carry.drop leRadioTsPacket } left
          (out ++ add.1)) := by
  obtain ⟨synced, packet, sync⟩ := held
  have settles : settle whole = ⟨(process whole.tables whole.carry.1).1,
      { whole with
        tables := (process whole.tables whole.carry.1).2
        carry := whole.carry.drop leRadioTsPacket }, false⟩ := by
    rw [settle, if_pos synced, if_neg (Nat.not_lt.mpr packet), if_pos sync]
  dsimp only
  split
  case isTrue full =>
    have audio : (process whole.tables whole.carry.1).1 ≠ [] := by
      rw [← List.length_pos_iff]
      omega
    have again : HeldBack { whole with tables := (process whole.tables whole.carry.1).2 } :=
      ⟨synced, packet, sync⟩
    refine .outFull _ rfl rfl again ?_ (tables ▸ full)
    rw [same, demuxFrom, if_pos again, settles, settle, if_pos (by exact synced),
      if_neg (by exact Nat.not_lt.mpr packet), if_pos (by exact sync)]
    dsimp only
    rw [process_again audio]
  case isFalse fits =>
    have settled : Settled { whole with
        tables := (process whole.tables whole.carry.1).2
        carry := whole.carry.drop leRadioTsPacket } := by
      have limit := whole.carry.2
      have packet_size : leRadioTsPacket = 188 := rfl
      rw [Settled, LeRadioTs.mark]
      dsimp only
      rw [synced, if_pos rfl, Carry.drop, List.length_drop]
      omega
    refine .go _ _ _ _ rfl (.inl settled) (fun room => ?_) ?_
    · rw [List.length_append]
      omega
    · rw [same, settles, Demuxed.on, if_neg (by exact nofun), demuxFrom_settled settled]

theorem fill_held {ts : LeRadioTs} (held : HeldBack ts) (rest : Bytes) :
    ts.carry.fill leRadioTsPacket (Nat.le_succ _) rest = (ts.carry, rest) := by
  have none : leRadioTsPacket - ts.carry.1.length = 0 := Nat.sub_eq_zero_of_le held.2.1
  refine Prod.ext (Subtype.ext ?_) ?_
  · rw [Carry.fill]
    dsimp only
    rw [none, List.take_zero, List.append_nil]
  · rw [Carry.fill]
    dsimp only
    rw [none, List.drop_zero]

theorem feedRound_follows (outCap : Nat) {ts : LeRadioTs} (between : Between ts)
    (rest out : Bytes) : Follows outCap ts rest out (feedRound outCap ts rest out) := by
  rw [feedRound]
  by_cases synced : ts.synced = true
  · rw [if_pos synced]
    dsimp only
    rcases between with settled | held
    · have mark : ts.mark = leRadioTsPacket := by rw [LeRadioTs.mark, if_pos synced]
      obtain ⟨waits, looks⟩ := fill_demux mark (Nat.le_succ _) settled rest
      rw [← demuxFrom_settled settled] at waits looks
      generalize ts.carry.fill leRadioTsPacket (Nat.le_succ _) rest = filled at waits looks ⊢
      split
      case isTrue short =>
        obtain ⟨read, same⟩ := waits short
        refine .needInput _ rfl rfl read ?_ same
        rw [Settled, LeRadioTs.mark]
        dsimp only
        rw [if_pos synced]
        exact short
      case isFalse full =>
        obtain ⟨length, same⟩ := looks full
        split
        case isTrue sync =>
          have held : HeldBack { ts with carry := filled.1 } := ⟨synced, Nat.not_lt.mp full, sync⟩
          exact packet_follows outCap held rfl same
        case isFalse bad =>
          have off : Settled { ts with synced := false, lost := 0, carry := filled.1 } := by
            rw [Settled, LeRadioTs.mark]
            dsimp only
            rw [length, if_neg (by rintro ⟨⟩)]
            exact Nat.lt_succ_self _
          have settles : settle { ts with carry := filled.1 } =
              ⟨[], { ts with synced := false, lost := 0, carry := filled.1 }, false⟩ := by
            rw [settle, if_pos (by exact synced), if_neg (by exact full), if_neg (by exact bad)]
          rw [settles, Demuxed.on, if_neg (by rintro ⟨⟩), Demuxed.after_nil,
            ← demuxFrom_settled off] at same
          have follows := resync_follows outCap rfl off filled.2 out
          generalize resync _ filled.2 out = round at follows ⊢
          cases follows with
          | needInput fed ending written read settled whole =>
              exact .needInput fed ending written read settled (same.trans whole)
          | outFull fed ending written held whole full =>
              exact .outFull fed ending written held (same.trans whole) full
          | syncLost fed ending written whole =>
              exact .syncLost fed ending written (same.trans whole)
          | go ts' rest' out' add written between fits whole =>
              exact .go ts' rest' out' add written between fits (same.trans whole)
    · have filled := fill_held held rest
      rw [filled, if_neg (Nat.not_lt.mpr held.2.1), if_pos held.2.2]
      exact packet_follows outCap held rfl (by rw [demuxFrom, if_pos held])
  · rw [if_neg synced]
    rcases between with settled | held
    · exact resync_follows outCap (Bool.eq_false_iff.mpr synced) settled rest out
    · exact absurd held.1 synced

/-! ### The whole loop -/

structure LoopFollows (outCap : Nat) (ts : LeRadioTs) (rest out : Bytes) (fed : Fed) : Prop where
  written : ∃ add, fed.out = out ++ add ∧
    (fed.ending = .needInput ∧ fed.rest = [] ∧ Settled fed.ts ∧
        demuxFrom ts rest = ⟨add, fed.ts, false⟩ ∨
      fed.ending = .outFull ∧ HeldBack fed.ts ∧
        demuxFrom ts rest = (demuxFrom fed.ts fed.rest).after add ∨
      fed.ending = .syncLost ∧ demuxFrom ts rest = ⟨add, fed.ts, true⟩)
  bounded : out.length ≤ outCap → fed.out.length ≤ outCap

theorem feedLoop_follows {outCap fuel : Nat} {ts : LeRadioTs} {rest out : Bytes} {fed : Fed}
    (between : Between ts) (returned : feedLoop outCap fuel ts rest out = some fed) :
    LoopFollows outCap ts rest out fed := by
  induction fuel generalizing ts rest out with
  | zero => cases returned
  | succ fuel ih =>
      have follows := feedRound_follows outCap between rest out
      rw [feedLoop] at returned
      generalize feedRound outCap ts rest out = round at follows returned
      cases follows with
      | needInput fed' ending written read settled same =>
          obtain rfl := Option.some.inj returned
          exact ⟨⟨[], by rw [written, List.append_nil], .inl ⟨ending, read, settled, same⟩⟩,
            fun fits => written ▸ fits⟩
      | outFull fed' ending written held same full =>
          obtain rfl := Option.some.inj returned
          exact ⟨⟨[], by rw [written, List.append_nil], .inr (.inl ⟨ending, held, same⟩)⟩,
            fun fits => written ▸ fits⟩
      | syncLost fed' ending written same =>
          obtain rfl := Option.some.inj returned
          exact ⟨⟨[], by rw [written, List.append_nil], .inr (.inr ⟨ending, same⟩)⟩,
            fun fits => written ▸ fits⟩
      | go ts' rest' out' add written between' fits same =>
          obtain ⟨⟨more, whole, ends⟩, bounded⟩ := ih between' returned
          refine ⟨⟨add ++ more, by rw [whole, written, List.append_assoc], ?_⟩,
            fun room => bounded (fits room)⟩
          rcases ends with ⟨ending, read, settled, later⟩ | ⟨ending, held, later⟩ | ⟨ending, later⟩
          · exact .inl ⟨ending, read, settled, by rw [same, later]; rfl⟩
          · exact .inr (.inl ⟨ending, held, by rw [same, later, Demuxed.after_after]⟩)
          · exact .inr (.inr ⟨ending, by rw [same, later]; rfl⟩)

end LibreEcho.Radio
