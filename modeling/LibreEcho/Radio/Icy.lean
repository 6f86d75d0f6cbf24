import LibreEcho.Lib.Deliveries
import LibreEcho.Radio.Ts

/-!
The reader of an Icecast stream in `radiod.c`: audio out of `icy_read`, metadata blocks out of
`metadata_block`.

A block can straddle two reads of the network, at any of its bytes; the state of it is kept
across the calls.
-/
namespace LibreEcho.Radio
open Deliveries

def icyMetaUnit : Nat := 16
def icyMetaMax : Nat := 255 * icyMetaUnit
def netChunk : Nat := 4096

/-- The reader's state: `raw` is what is left of the buffer, `metaNeed` is `none` while a length
byte is pending, `told` are the texts given to `metadata_block`. -/
structure IcyStream where
  metaint : Nat
  untilMeta : Nat
  metaNeed : Option Nat
  metaText : Bytes
  raw : Bytes
  told : List Bytes

/-- The stream as `icy_open` leaves it, with what the read of the headers has taken of the body. -/
def icyOpen (metaint : Nat) (leftover : Bytes) : IcyStream where
  metaint
  untilMeta := metaint
  metaNeed := none
  metaText := []
  raw := leftover
  told := []

def icyConsumeMeta (st : IcyStream) : IcyStream :=
  match st.metaNeed with
  | none =>
      let need := (st.raw.headD 0).toNat * icyMetaUnit
      let st := { st with raw := st.raw.tail, metaText := [] }
      if need ≠ 0 then { st with metaNeed := some need }
      else { st with untilMeta := st.metaint }
  | some need =>
      let take := min st.raw.length need
      let metaText := if st.metaText.length + take ≤ icyMetaMax
        then st.metaText ++ st.raw.take take else st.metaText
      let st := { st with metaText, raw := st.raw.drop take }
      if need - take ≠ 0 then { st with metaNeed := some (need - take) }
      else { st with metaNeed := none, untilMeta := st.metaint, told := st.told ++ [metaText] }

/-- What one read of the network ends with. -/
inductive NetRead where
  | ended
  | again (net : List (Delivery UInt8))
  | got (raw : Bytes) (net : List (Delivery UInt8))

def netRead : List (Delivery UInt8) → NetRead
  | [] => .ended
  | .interrupted :: net => .again net
  | .chunk first more :: net =>
      .got ((first :: more).take netChunk) (putBack ((first :: more).drop netChunk) net)

/-- What a call returns: the bytes, or `-1` at the end of the stream. A loop that runs out of its
rounds would be an outcome of its own. -/
inductive IcyRead where
  | bytes (audio : Bytes)
  | ended
  | exhausted
deriving DecidableEq, Repr

/-- The loop of `icy_read`. -/
def icyReadLoop (want : Nat) : Nat → Bytes → IcyStream → List (Delivery UInt8) →
    IcyRead × IcyStream × List (Delivery UInt8)
  | 0, _, st, net => (.exhausted, st, net)
  | rounds + 1, produced, st, net =>
      if want ≤ produced.length then (.bytes produced, st, net)
      else if st.raw = [] ∧ produced ≠ [] then (.bytes produced, st, net)
      else
        match (if st.raw = [] then netRead net else .got st.raw net) with
        | .ended => (.ended, st, net)
        | .again net => icyReadLoop want rounds produced st net
        | .got raw net =>
            let st := { st with raw }
            if st.metaint ≠ 0 ∧ st.untilMeta = 0 then
              icyReadLoop want rounds produced (icyConsumeMeta st) net
            else
              let available := if st.metaint ≠ 0 then min raw.length st.untilMeta else raw.length
              let available := min available (want - produced.length)
              icyReadLoop want rounds (produced ++ raw.take available)
                { st with
                  raw := raw.drop available
                  untilMeta := if st.metaint ≠ 0 then st.untilMeta - available else st.untilMeta }
                net

/-- Rounds enough for what is in the buffer and what the network has. -/
def icyRounds (st : IcyStream) (net : List (Delivery UInt8)) : Nat :=
  st.raw.length + 2 * (contents net).length + net.length + 2

def icyRead (want : Nat) (st : IcyStream) (net : List (Delivery UInt8)) :
    IcyRead × IcyStream × List (Delivery UInt8) :=
  icyReadLoop want (icyRounds st net) [] st net

/-- The bytes of the calls in order, up to the one that meets the end of the stream. -/
def icyReads : List Nat → IcyStream → List (Delivery UInt8) → Bytes × IcyRead × IcyStream
  | [], st, _ => ([], .bytes [], st)
  | want :: wants, st, net =>
      match icyRead want st net with
      | (.bytes audio, st, net) =>
          let (later, last, st) := icyReads wants st net
          (audio ++ later, last, st)
      | (other, st, _) => ([], other, st)

/-! ### The bytes of the stream -/

/-- The state of a reader that takes one byte after another. -/
structure Demux where
  untilMeta : Nat
  metaNeed : Option Nat
  metaText : Bytes

/-- The audio and the metadata texts in a part of the stream. -/
structure Heard where
  audio : Bytes
  blocks : List Bytes

def hear (metaint : Nat) (d : Demux) (c : UInt8) : Demux × Heard :=
  if metaint = 0 then (d, ⟨[c], []⟩)
  else if d.untilMeta ≠ 0 then ({ d with untilMeta := d.untilMeta - 1 }, ⟨[c], []⟩)
  else
    match d.metaNeed with
    | none =>
        if c.toNat * icyMetaUnit = 0 then (⟨metaint, none, []⟩, ⟨[], []⟩)
        else (⟨0, some (c.toNat * icyMetaUnit), []⟩, ⟨[], []⟩)
    | some need =>
        if need - 1 = 0 then (⟨metaint, none, d.metaText ++ [c]⟩, ⟨[], [d.metaText ++ [c]]⟩)
        else (⟨0, some (need - 1), d.metaText ++ [c]⟩, ⟨[], []⟩)

def hearAll (metaint : Nat) : Demux → Bytes → Demux × Heard
  | d, [] => (d, ⟨[], []⟩)
  | d, c :: rest =>
      let one := hear metaint d c
      let more := hearAll metaint one.1 rest
      (more.1, ⟨one.2.audio ++ more.2.audio, one.2.blocks ++ more.2.blocks⟩)

/-- A body with metadata: audio of a fixed length, a length byte and so many units of text, over
and over; it may end anywhere. -/
inductive IcyBody (metaint : Nat) : Bytes → Bytes → List Bytes → Prop where
  | ends {audio : Bytes} : audio.length ≤ metaint → IcyBody metaint audio audio []
  | cut {audio text : Bytes} {units : UInt8} : audio.length = metaint →
      text.length < units.toNat * icyMetaUnit → IcyBody metaint (audio ++ units :: text) audio []
  | block {audio text rest more : Bytes} {blocks : List Bytes} {units : UInt8} :
      audio.length = metaint → text.length = units.toNat * icyMetaUnit →
      IcyBody metaint rest more blocks →
      IcyBody metaint (audio ++ units :: (text ++ rest)) (audio ++ more)
        (if text = [] then blocks else text :: blocks)

end LibreEcho.Radio

/-!
`icy_read` against a reader that takes one byte after another, and that reader against the format
of the body.
-/
namespace LibreEcho.Radio
open Deliveries

/-! ### One byte after another -/

section Hear
variable {metaint : Nat} {d : Demux}

theorem hearAll_append (d : Demux) (front back : Bytes) :
    hearAll metaint d (front ++ back) =
      let one := hearAll metaint d front
      let more := hearAll metaint one.1 back
      (more.1, ⟨one.2.audio ++ more.2.audio, one.2.blocks ++ more.2.blocks⟩) := by
  induction front generalizing d with
  | nil => rfl
  | cons c front ih =>
      rw [List.cons_append, hearAll, hearAll, ih]
      dsimp only
      rw [List.append_assoc, List.append_assoc]

theorem hearAll_plain (d : Demux) (bytes : Bytes) : hearAll 0 d bytes = (d, ⟨bytes, []⟩) := by
  induction bytes with
  | nil => rfl
  | cons c bytes ih =>
      rw [hearAll, hear, if_pos rfl]
      dsimp only
      rw [ih]
      rfl

theorem hearAll_audio (some : metaint ≠ 0) {bytes : Bytes} (room : bytes.length ≤ d.untilMeta) :
    hearAll metaint d bytes =
      ({ d with untilMeta := d.untilMeta - bytes.length }, ⟨bytes, []⟩) := by
  induction bytes generalizing d with
  | nil => rfl
  | cons c bytes ih =>
      rw [List.length_cons] at room
      rw [hearAll, hear, if_neg some, if_pos (by omega)]
      dsimp only
      rw [ih (d := { d with untilMeta := d.untilMeta - 1 }) (by dsimp only; omega), List.length_cons]
      dsimp only
      rw [Nat.sub_sub, Nat.add_comm 1]
      rfl

theorem hear_text (some : metaint ≠ 0) (need : Nat) (text : Bytes) (c : UInt8) :
    hear metaint ⟨0, .some need, text⟩ c =
      if need - 1 = 0 then (⟨metaint, none, text ++ [c]⟩, ⟨[], [text ++ [c]]⟩)
      else (⟨0, .some (need - 1), text ++ [c]⟩, ⟨[], []⟩) := by
  rw [hear, if_neg some, if_neg (not_not.mpr rfl)]

theorem hearAll_text (some : metaint ≠ 0) {need : Nat} (text : Bytes) {bytes : Bytes}
    (short : bytes.length < need) : hearAll metaint ⟨0, .some need, text⟩ bytes =
      (⟨0, .some (need - bytes.length), text ++ bytes⟩, ⟨[], []⟩) := by
  induction bytes generalizing need text with
  | nil => rw [hearAll, List.append_nil, List.length_nil, Nat.sub_zero]
  | cons c bytes ih =>
      rw [List.length_cons] at short
      rw [hearAll, hear_text some, if_neg (by omega)]
      dsimp only
      rw [ih (text ++ [c]) (by omega), List.append_assoc, List.singleton_append, List.length_cons,
        Nat.sub_sub, Nat.add_comm 1]
      rfl

theorem hearAll_block (some : metaint ≠ 0) {need : Nat} (text : Bytes) {bytes : Bytes}
    (whole : bytes.length = need) (filled : need ≠ 0) : hearAll metaint ⟨0, .some need, text⟩ bytes =
      (⟨metaint, none, text ++ bytes⟩, ⟨[], [text ++ bytes]⟩) := by
  obtain ⟨front, c, rfl⟩ := List.eq_nil_or_concat' bytes |>.resolve_left fun none =>
    filled (by rw [← whole, none]; rfl)
  rw [List.length_append, List.length_singleton] at whole
  rw [hearAll_append, hearAll_text some text (by omega)]
  dsimp only
  rw [hearAll, hear_text some, if_pos (by omega)]
  dsimp only
  rw [hearAll, List.append_assoc]
  rfl

theorem hear_units (some : metaint ≠ 0) (text : Bytes) (units : UInt8) :
    hear metaint ⟨0, none, text⟩ units =
      if units.toNat * icyMetaUnit = 0 then (⟨metaint, none, []⟩, ⟨[], []⟩)
      else (⟨0, .some (units.toNat * icyMetaUnit), []⟩, ⟨[], []⟩) := by
  rw [hear, if_neg some, if_neg (not_not.mpr rfl)]

theorem hearAll_body (some : metaint ≠ 0) {body audio : Bytes} {blocks : List Bytes}
    (parts : IcyBody metaint body audio blocks) (text : Bytes) :
    (hearAll metaint ⟨metaint, none, text⟩ body).2 = ⟨audio, blocks⟩ := by
  induction parts generalizing text with
  | ends room => rw [hearAll_audio some room]
  | @cut audio rest units length short =>
      rw [hearAll_append, hearAll_audio some (Nat.le_of_eq length)]
      dsimp only
      rw [length, Nat.sub_self, hearAll, hear_units some, if_neg (Nat.ne_of_gt (Nat.zero_lt_of_lt short))]
      dsimp only
      rw [hearAll_text some [] short]
      simp
  | @block audio rest later more blocks units length whole _ ih =>
      rw [hearAll_append, hearAll_audio some (Nat.le_of_eq length)]
      dsimp only
      rw [length, Nat.sub_self, hearAll, hear_units some, ← whole]
      by_cases empty : rest = []
      · subst empty
        rw [List.length_nil, if_pos rfl, List.nil_append]
        dsimp only
        rw [if_pos rfl, ih []]
        simp
      · have filled : rest.length ≠ 0 := fun none => empty (List.eq_nil_of_length_eq_zero none)
        rw [if_neg filled, if_neg empty]
        dsimp only
        rw [hearAll_append, hearAll_block some [] rfl filled]
        dsimp only
        rw [ih _]
        simp

end Hear

/-! ### The calls -/

def IcyStream.demux (st : IcyStream) : Demux :=
  ⟨st.untilMeta, st.metaNeed, st.metaText⟩

/-- Inside a block no audio is due, and its text fits the buffer. -/
def IcyStream.Sound (st : IcyStream) : Prop :=
  ∀ need, st.metaNeed = some need →
    st.untilMeta = 0 ∧ need ≠ 0 ∧ st.metaText.length + need ≤ icyMetaMax

/-- From one state to another the reader has taken these bytes. -/
structure Takes (st later : IcyStream) (taken audio : Bytes) : Prop where
  sound : later.Sound
  metaint : later.metaint = st.metaint
  heard : ∃ blocks, hearAll st.metaint st.demux taken = (later.demux, ⟨audio, blocks⟩) ∧
    later.told = st.told ++ blocks

theorem Takes.refl {st : IcyStream} (sound : st.Sound) : Takes st st [] [] :=
  ⟨sound, rfl, [], rfl, (List.append_nil _).symm⟩

theorem Takes.trans {st mid later : IcyStream} {taken taken' audio audio' : Bytes}
    (first : Takes st mid taken audio) (second : Takes mid later taken' audio') :
    Takes st later (taken ++ taken') (audio ++ audio') := by
  obtain ⟨blocks, heard, told⟩ := first.heard
  obtain ⟨blocks', heard', told'⟩ := second.heard
  refine ⟨second.sound, second.metaint.trans first.metaint, blocks ++ blocks', ?_, ?_⟩
  · rw [hearAll_append, heard]
    dsimp only
    rw [← first.metaint, heard']
  · rw [told', told, List.append_assoc]

theorem Takes.withRaw {st later : IcyStream} {taken audio : Bytes} (takes : Takes st later taken audio)
    (raw raw' : Bytes) : Takes { st with raw } { later with raw := raw' } taken audio :=
  ⟨takes.sound, takes.metaint, takes.heard⟩

theorem icyConsumeMeta_takes {st : IcyStream} (sound : st.Sound) (some : st.metaint ≠ 0)
    (due : st.untilMeta = 0) (filled : st.raw ≠ []) : ∃ taken, taken ≠ [] ∧
      st.raw = taken ++ (icyConsumeMeta st).raw ∧ Takes st (icyConsumeMeta st) taken [] := by
  obtain ⟨metaint, untilMeta, metaNeed, metaText, raw, told⟩ := st
  dsimp only at some due filled
  subst due
  obtain ⟨c, raw, rfl⟩ := List.exists_cons_of_ne_nil filled
  cases metaNeed with
  | none =>
      have units := hear_units some metaText c
      rw [icyConsumeMeta]
      dsimp only [List.headD_cons, List.tail_cons]
      refine ⟨[c], List.cons_ne_nil _ _, ?_, ?_⟩
      · split
        · rfl
        · rfl
      · split
        case isTrue filled =>
          rw [if_neg filled] at units
          refine ⟨fun need same => ?_, rfl, [], ?_, (List.append_nil _).symm⟩
          · cases same
            have limit := c.toNat_lt
            refine ⟨rfl, filled, ?_⟩
            change 0 + c.toNat * 16 ≤ 255 * 16
            omega
          · rw [IcyStream.demux, hearAll, units]
            rfl
        case isFalse empty =>
          rw [if_pos (not_not.mp empty)] at units
          refine ⟨nofun, rfl, [], ?_, (List.append_nil _).symm⟩
          rw [IcyStream.demux, hearAll, units]
          rfl
  | some need =>
      obtain ⟨-, left, room⟩ := sound need rfl
      dsimp only at room
      rw [icyConsumeMeta]
      dsimp only
      have count : ((c :: raw).take (min (c :: raw).length need)).length = min (c :: raw).length need := by
        rw [List.length_take]
        omega
      have fits : metaText.length + min (c :: raw).length need ≤ icyMetaMax := by omega
      rw [if_pos fits]
      refine ⟨(c :: raw).take (min (c :: raw).length need), ?_, ?_, ?_⟩
      · intro none
        rw [none, List.length_nil, List.length_cons] at count
        omega
      · split
        · exact (List.take_append_drop _ _).symm
        · exact (List.take_append_drop _ _).symm
      · split
        case isTrue more =>
          refine ⟨fun need' same => ?_, rfl, [], ?_, (List.append_nil _).symm⟩
          · cases same
            refine ⟨rfl, more, ?_⟩
            dsimp only
            rw [List.length_append, count]
            omega
          · rw [IcyStream.demux, hearAll_text some metaText (by rw [count]; omega), count]
            rfl
        case isFalse done =>
          refine ⟨nofun, rfl, [metaText ++ (c :: raw).take (min (c :: raw).length need)], ?_, rfl⟩
          rw [IcyStream.demux, hearAll_block some metaText (by rw [count]; omega) left]
          rfl

theorem audio_takes {st : IcyStream} (sound : st.Sound) (free : st.metaint = 0 ∨ st.untilMeta ≠ 0)
    {count : Nat} (room : st.metaint ≠ 0 → count ≤ st.untilMeta) (there : count ≤ st.raw.length) :
    Takes st { st with
      raw := st.raw.drop count
      untilMeta := if st.metaint ≠ 0 then st.untilMeta - count else st.untilMeta }
      (st.raw.take count) (st.raw.take count) := by
  have length : (st.raw.take count).length = count := by
    rw [List.length_take]
    omega
  rcases Nat.eq_zero_or_pos st.metaint with plain | some
  · rw [if_neg (not_not.mpr plain)]
    refine ⟨sound, rfl, [], ?_, (List.append_nil _).symm⟩
    rw [plain, hearAll_plain]
    rfl
  · rw [if_pos (Nat.ne_of_gt some)]
    refine ⟨fun need same => ?_, rfl, [], ?_, (List.append_nil _).symm⟩
    · exact absurd (sound need same).1 (free.resolve_left (Nat.ne_of_gt some))
    · have limit : (st.raw.take count).length ≤ st.demux.untilMeta := by
        rw [length]
        exact room (Nat.ne_of_gt some)
      rw [hearAll_audio (Nat.ne_of_gt some) limit, length]
      rfl

/-- How a call follows the stream: what it returns is the audio of what it takes. -/
inductive ReadFollows (want : Nat) (produced : Bytes) (st : IcyStream) (net : List (Delivery UInt8)) :
    IcyRead × IcyStream × List (Delivery UInt8) → Prop where
  | bytes {taken audio : Bytes} {later : IcyStream} {net' : List (Delivery UInt8)} :
      st.raw ++ contents net = taken ++ (later.raw ++ contents net') →
      Takes st later taken audio → (produced ++ audio).length ≤ want →
      (want ≠ 0 → produced ++ audio ≠ []) → ReadFollows want produced st net (.bytes (produced ++ audio), later, net')
  | ended {taken : Bytes} {later : IcyStream} {net' : List (Delivery UInt8)} :
      produced = [] → st.raw ++ contents net = taken → later.raw = [] → Takes st later taken [] →
      ReadFollows want produced st net (.ended, later, net')

theorem ReadFollows.after {want : Nat} {produced audio : Bytes} {st mid : IcyStream}
    {net net' : List (Delivery UInt8)} {taken : Bytes}
    {result : IcyRead × IcyStream × List (Delivery UInt8)}
    (whole : st.raw ++ contents net = taken ++ (mid.raw ++ contents net'))
    (takes : Takes st mid taken audio) (rest : ReadFollows want (produced ++ audio) mid net' result) :
    ReadFollows want produced st net result := by
  cases rest with
  | bytes whole' takes' short filled =>
      rw [List.append_assoc] at short filled ⊢
      exact .bytes (by rw [whole, whole', List.append_assoc]) (takes.trans takes') short filled
  | ended none whole' empty takes' =>
      obtain ⟨rfl, rfl⟩ := List.append_eq_nil_iff.mp none
      exact .ended rfl (whole.trans (congrArg _ whole')) empty (takes.trans takes')

theorem netRead_got {net net' : List (Delivery UInt8)} {raw : Bytes}
    (read : netRead net = .got raw net') :
    raw ≠ [] ∧ contents net = raw ++ contents net' ∧ net'.length ≤ net.length := by
  cases net with
  | nil => cases read
  | cons delivery net =>
      cases delivery with
      | interrupted => cases read
      | chunk first more =>
          cases read
          refine ⟨?_, ?_, ?_⟩
          · rw [netChunk, List.take_succ_cons]
            exact List.cons_ne_nil _ _
          · rw [contents_putBack, ← List.append_assoc, List.take_append_drop]
            exact contents_cons _ _
          · exact putBack_length _ _

theorem netRead_again {net net' : List (Delivery UInt8)} (read : netRead net = .again net') :
    contents net = contents net' ∧ net'.length < net.length := by
  cases net with
  | nil => cases read
  | cons delivery net =>
      cases delivery with
      | interrupted =>
          cases read
          exact ⟨rfl, Nat.lt_succ_self _⟩
      | chunk first more => cases read

theorem netRead_ended {net : List (Delivery UInt8)} (read : netRead net = .ended) : contents net = [] := by
  cases net with
  | nil => rfl
  | cons delivery net =>
      cases delivery with
      | interrupted | chunk => cases read

theorem icyReadLoop_follows {want rounds : Nat} {produced : Bytes} {st : IcyStream}
    {net : List (Delivery UInt8)} (sound : st.Sound) (short : produced.length ≤ want)
    (enough : st.raw.length + 2 * (contents net).length + net.length < rounds) :
    ReadFollows want produced st net (icyReadLoop want rounds produced st net) := by
  induction rounds generalizing produced st net with
  | zero => exact absurd enough (Nat.not_lt_zero _)
  | succ rounds ih =>
      have stay : (want ≠ 0 → produced ≠ []) →
          ReadFollows want produced st net (.bytes produced, st, net) := by
        intro filled
        have same : ReadFollows want produced st net (.bytes (produced ++ []), st, net) :=
          .bytes (List.nil_append _).symm (.refl sound) (by rwa [List.append_nil])
            (by rwa [List.append_nil])
        rwa [List.append_nil] at same
      rw [icyReadLoop]
      split
      case isTrue full =>
        refine stay fun some none => some ?_
        rw [none] at full
        exact Nat.le_zero.mp full
      case isFalse room =>
        split
        case isTrue drained => exact stay fun _ => drained.2
        case isFalse going =>
          -- Whatever is read goes into the buffer, or is there already.
          have got : ∀ raw net', raw ≠ [] → st.raw ++ contents net = raw ++ contents net' →
              raw.length + 2 * (contents net').length + net'.length ≤ rounds →
              ReadFollows want produced st net
                (if st.metaint ≠ 0 ∧ st.untilMeta = 0 then
                  icyReadLoop want rounds produced (icyConsumeMeta { st with raw }) net'
                else
                  icyReadLoop want rounds (produced ++ raw.take
                      (min (if st.metaint ≠ 0 then min raw.length st.untilMeta else raw.length)
                        (want - produced.length)))
                    { st with
                      raw := raw.drop
                        (min (if st.metaint ≠ 0 then min raw.length st.untilMeta else raw.length)
                          (want - produced.length))
                      untilMeta := if st.metaint ≠ 0 then st.untilMeta -
                        (min (if st.metaint ≠ 0 then min raw.length st.untilMeta else raw.length)
                          (want - produced.length)) else st.untilMeta } net') := by
            intro raw net' filled whole enough
            have soundRaw : ({ st with raw } : IcyStream).Sound := sound
            have begins : Takes st { st with raw } [] [] := (Takes.refl sound).withRaw st.raw raw
            have start : 0 < raw.length := List.length_pos_of_ne_nil filled
            split
            case isTrue due =>
              obtain ⟨taken, some, split, takes⟩ := icyConsumeMeta_takes soundRaw due.1 due.2 filled
              have fewer := congrArg List.length split
              have more := List.length_pos_of_ne_nil some
              rw [List.length_append] at fewer
              dsimp only at fewer split
              have parts : st.raw ++ contents net = [] ++ taken ++
                  ((icyConsumeMeta { st with raw }).raw ++ contents net') := by
                rw [whole, List.nil_append, ← List.append_assoc, ← split]
              refine ReadFollows.after parts (begins.trans takes) ?_
              rw [List.append_nil, List.append_nil]
              exact ih takes.sound short (by omega)
            case isFalse free =>
              generalize count : min (if st.metaint ≠ 0 then min raw.length st.untilMeta
                else raw.length) (want - produced.length) = n
              have free : st.metaint = 0 ∨ st.untilMeta ≠ 0 := by
                by_contra none
                rw [not_or, not_not] at none
                exact free none
              have bounds : n ≤ raw.length ∧ (st.metaint ≠ 0 → n ≤ st.untilMeta) ∧ 0 < n ∧
                  n ≤ want - produced.length := by
                split at count
                · exact ⟨by omega, fun _ => by omega, by omega, by omega⟩
                · rename_i plain
                  exact ⟨by omega, fun some => absurd some plain, by omega, by omega⟩
              obtain ⟨there, before, some, fits⟩ := bounds
              have takes := audio_takes soundRaw free before there
              have length : (raw.take n).length = n := by
                rw [List.length_take]
                omega
              have parts : st.raw ++ contents net = [] ++ raw.take n ++ (raw.drop n ++ contents net') := by
                rw [whole, List.nil_append, ← List.append_assoc, List.take_append_drop]
              refine ReadFollows.after parts (begins.trans takes) ?_
              rw [List.nil_append]
              refine ih takes.sound ?_ ?_
              · rw [List.length_append, length]
                omega
              · dsimp only
                rw [List.length_drop]
                omega
          by_cases empty : st.raw = []
          · rw [if_pos empty]
            have blank : produced = [] := by
              by_contra filled
              exact going ⟨empty, filled⟩
            cases read : netRead net with
            | ended =>
                refine .ended blank ?_ empty (.refl sound)
                rw [empty, netRead_ended read]
                rfl
            | again net' =>
                obtain ⟨same, less⟩ := netRead_again read
                have parts : st.raw ++ contents net = [] ++ (st.raw ++ contents net') := by
                  rw [same, List.nil_append]
                refine ReadFollows.after parts (.refl sound) ?_
                rw [List.append_nil]
                exact ih sound short (by rw [← same]; omega)
            | got raw net' =>
                obtain ⟨filled, same, less⟩ := netRead_got read
                have pieces := congrArg List.length same
                have start := List.length_pos_of_ne_nil filled
                rw [List.length_append] at pieces
                exact got raw net' filled (by rw [empty, same]; rfl) (by omega)
          · rw [if_neg empty]
            exact got st.raw net empty rfl (by omega)

theorem icyRead_follows {st : IcyStream} (sound : st.Sound) (want : Nat)
    (net : List (Delivery UInt8)) : ReadFollows want [] st net (icyRead want st net) :=
  icyReadLoop_follows sound (Nat.zero_le _) (by rw [icyRounds]; omega)

theorem icyReads_takes {wants : List Nat} (asked : ∀ want ∈ wants, want ≠ 0) {st : IcyStream}
    (sound : st.Sound) (net : List (Delivery UInt8)) : ∃ taken rest,
      st.raw ++ contents net = taken ++ rest ∧
      Takes st (icyReads wants st net).2.2 taken (icyReads wants st net).1 ∧
      (icyReads wants st net).2.1 ≠ .exhausted ∧
      ((icyReads wants st net).2.1 = .ended → rest = []) ∧
      ((icyReads wants st net).1.length < wants.length → (icyReads wants st net).2.1 = .ended) := by
  induction wants generalizing st net with
  | nil => exact ⟨[], _, rfl, .refl sound, nofun, nofun, fun h => absurd h (Nat.not_lt_zero _)⟩
  | cons want wants ih =>
      obtain ⟨some, asked⟩ := List.forall_mem_cons.mp asked
      have follows := icyRead_follows sound want net
      rw [icyReads]
      generalize icyRead want st net = call at follows
      cases follows with
      | @ended taken later net' _ whole empty takes =>
          exact ⟨taken, [], by rw [whole, List.append_nil], takes, nofun, fun _ => rfl, fun _ => rfl⟩
      | @bytes taken audio later net' whole takes short filled =>
          obtain ⟨taken', rest, whole', takes', ran, done, long⟩ := ih asked takes.sound net'
          dsimp only
          refine ⟨taken ++ taken', rest, ?_, takes.trans takes', ran, done, fun fewer => ?_⟩
          · rw [whole, whole', List.append_assoc]
          · have start := List.length_pos_of_ne_nil (filled some)
            rw [List.nil_append, List.length_append, List.length_cons] at fewer
            rw [List.nil_append] at start
            exact long (by omega)

def IcyContent (metaint : Nat) (body audio : Bytes) (blocks : List Bytes) : Prop :=
  if metaint = 0 then audio = body ∧ blocks = [] else IcyBody metaint body audio blocks

theorem hearAll_content {metaint : Nat} {body audio : Bytes} {blocks : List Bytes}
    (content : IcyContent metaint body audio blocks) :
    (hearAll metaint ⟨metaint, none, []⟩ body).2 = ⟨audio, blocks⟩ := by
  rw [IcyContent] at content
  split at content
  case isTrue plain =>
    obtain ⟨rfl, rfl⟩ := content
    rw [plain, hearAll_plain]
  case isFalse some => exact hearAll_body some content []

/-- However the network delivers the body and whatever sizes are asked for, the calls return the
audio from its start on and tell the texts in order, all of them by the end of the stream. -/
theorem icyReads_demux {metaint : Nat} {leftover audio : Bytes} {blocks : List Bytes}
    {net : List (Delivery UInt8)} (content : IcyContent metaint (leftover ++ contents net) audio blocks)
    {wants : List Nat} (asked : ∀ want ∈ wants, want ≠ 0) :
    let run := icyReads wants (icyOpen metaint leftover) net
    run.1 <+: audio ∧ run.2.2.told <+: blocks ∧ run.2.1 ≠ .exhausted ∧
      (run.2.1 = .ended → run.1 = audio ∧ run.2.2.told = blocks) ∧
      (audio.length < wants.length → run.2.1 = .ended) := by
  intro run
  have sound : (icyOpen metaint leftover).Sound := nofun
  obtain ⟨taken, rest, whole, takes, ran, done, long⟩ := icyReads_takes asked sound net
  obtain ⟨told, heard, same⟩ := takes.heard
  have all := hearAll_content content
  change leftover ++ contents net = taken ++ rest at whole
  change hearAll metaint ⟨metaint, none, []⟩ taken = _ at heard
  rw [whole, hearAll_append, heard] at all
  obtain ⟨rfl, rfl⟩ := Heard.mk.inj all
  change run.2.2.told = [] ++ told at same
  rw [List.nil_append] at same
  rw [same]
  refine ⟨List.prefix_append _ _, List.prefix_append _ _, ran, fun ended => ?_, fun more => ?_⟩
  · rw [done ended, hearAll]
    exact ⟨(List.append_nil _).symm, (List.append_nil _).symm⟩
  · refine long (Nat.lt_of_le_of_lt ?_ more)
    rw [List.length_append]
    exact Nat.le_add_right _ _

/-- Two bytes of audio between a text, an empty block and the end, cut inside the text. -/
def cutStream : List (Delivery UInt8) :=
  [.chunk 1 [65], .interrupted, .chunk 66 (List.replicate 13 32 ++ [67, 3]), .chunk 4 [0, 5]]

theorem icyReads_demux_cut :
    (icyReads [1, 5, 5, 5, 5, 5] (icyOpen 2 [1, 2]) cutStream).1 = [1, 2, 3, 4, 5] ∧
      (icyReads [1, 5, 5, 5, 5, 5] (icyOpen 2 [1, 2]) cutStream).2.2.told =
        [65 :: 66 :: (List.replicate 13 32 ++ [67])] := by
  have content : IcyContent 2 ([1, 2] ++ contents cutStream) ([1, 2] ++ ([3, 4] ++ [5]))
      [65 :: 66 :: (List.replicate 13 32 ++ [67])] := by
    have last : IcyBody 2 [5] [5] [] := .ends (by decide)
    have empty := @IcyBody.block 2 [3, 4] [] [5] [5] [] 0 rfl rfl last
    exact @IcyBody.block 2 [1, 2] (65 :: 66 :: (List.replicate 13 32 ++ [67])) _ _ _ 1 rfl rfl empty
  obtain ⟨-, -, -, done, long⟩ := icyReads_demux content (by decide : ∀ want ∈ [1, 5, 5, 5, 5, 5], want ≠ 0)
  exact done (long (by decide))

end LibreEcho.Radio
