import LibreEcho.Lib.Varint

/-!
The protobuf writer and reader of esphome_proto.c.

The writer fills a buffer of fixed size and remembers that something did not fit.
The reader walks the fields of a message that comes from the network.
-/
namespace LibreEcho.Esphome
open Varint

/-- A buffer never holds more than it was made for, and that is a `size_t`. -/
structure EpWriter where
  data : Bytes
  capacity : Nat
  error : Bool
  fits : data.length ≤ capacity
  sized : capacity < 2 ^ 64

def EpWriter.start (capacity : Nat) (sized : capacity < 2 ^ 64) : EpWriter :=
  ⟨[], capacity, false, Nat.zero_le _, sized⟩

def raw (w : EpWriter) (p : Bytes) : EpWriter :=
  if w.error then w
  else if large : w.capacity - w.data.length < p.length then { w with error := true }
  else
    { w with
      data := w.data ++ p
      fits := by
        have kept := w.fits
        rw [List.length_append]
        omega }

def putvar (w : EpWriter) (v : Nat) : EpWriter :=
  raw w (encode v)

/-- The `count` bytes of a number, the lowest first. -/
def leBytes : Nat → Nat → Bytes
  | 0, _ => []
  | count + 1, v => UInt8.ofNat (v % 256) :: leBytes count (v / 256)

def ofLeBytes : Bytes → Nat
  | [] => 0
  | b :: rest => b.toNat + 256 * ofLeBytes rest

def strlen (s : Bytes) : Nat :=
  (s.takeWhile (· ≠ 0)).length

def epUint (w : EpWriter) (f : Nat) (v : UInt64) : EpWriter :=
  putvar (putvar w (f * 8)) v.toNat

def epFixed32 (w : EpWriter) (f : Nat) (v : UInt32) : EpWriter :=
  raw (putvar w (f * 8 + 5)) (leBytes 4 v.toNat)

def epBytes (w : EpWriter) (f : Nat) (p : Bytes) : EpWriter :=
  raw (putvar (putvar w (f * 8 + 2)) p.length) p

def epString (w : EpWriter) (f : Nat) (s : Bytes) : EpWriter :=
  epBytes w f (s.take (strlen s))

/-- The bytes of a length-delimited field are a place in the message. -/
structure EpField where
  number : Nat
  wire : Nat
  value : Nat
  data : Option Nat
  length : Nat
deriving DecidableEq, Repr

structure EpReader where
  data : Bytes
  position : Nat
  fields : Nat
  error : Bool
deriving DecidableEq

def epReaderInit (p : Bytes) : EpReader :=
  ⟨p, 0, 0, false⟩

/-- What `ep_next` returns: 0, -1, or 1 and a field. -/
inductive EpNext where
  | finished
  | bad
  | field (f : EpField)
deriving DecidableEq, Repr

def var64 (p : Bytes) : Read :=
  read 1 10 p

/-- The label `bad`. -/
def EpReader.fail (r : EpReader) : EpReader × EpNext :=
  ({ r with error := true }, .bad)

def EpReader.remaining (r : EpReader) : Bytes :=
  r.data.drop r.position

def epFixed (r : EpReader) (number wire u : Nat) : EpReader × EpNext :=
  let p := r.remaining
  if p.length < u then r.fail
  else
    ({ r with position := r.position + u },
      .field ⟨number, wire, ofLeBytes (p.take u), none, 0⟩)

def epWire (r : EpReader) (number : Nat) : Nat → EpReader × EpNext
  | 0 =>
      match var64 r.remaining with
      | .done u v => ({ r with position := r.position + u }, .field ⟨number, 0, v, none, 0⟩)
      | _ => r.fail
  | 1 => epFixed r number 1 8
  | 5 => epFixed r number 5 4
  | 2 =>
      match var64 r.remaining with
      | .done u v =>
          if r.remaining.length - u < v then r.fail
          else
            ({ r with position := r.position + u + v },
              .field ⟨number, 2, 0, some (r.position + u), v⟩)
      | _ => r.fail
  | _ => r.fail

def epNext (r : EpReader) : EpReader × EpNext :=
  if r.error then (r, .bad)
  else if r.position = r.data.length then (r, .finished)
  else
    let r := { r with fields := r.fields + 1 }
    if 256 < r.fields then r.fail
    else
      match var64 r.remaining with
      | .done u tag =>
          if tag < 8 ∨ 0x1fffffff < tag / 8 then r.fail
          else epWire { r with position := r.position + u } (tag / 8) (tag % 8)
      | _ => r.fail

/-- `while (ep_next(&r, &f) > 0)`; none stands for a loop that goes on. -/
def epIterate : Nat → EpReader → Option (List EpField × EpNext)
  | 0, _ => none
  | calls + 1, r =>
      match epNext r with
      | (next, .field f) => (epIterate calls next).map fun (fields, last) => (f :: fields, last)
      | (_, last) => some ([], last)

def epAfter (p : Bytes) : Nat → EpReader
  | 0 => epReaderInit p
  | calls + 1 => (epNext (epAfter p calls)).1

section bounds

def EpReader.Inside (r : EpReader) : Prop :=
  r.position ≤ r.data.length

def EpField.Inside (f : EpField) (input : Bytes) : Prop :=
  ∀ start, f.data = some start → start + f.length ≤ input.length

structure Moved (r next : EpReader) (result : EpNext) : Prop where
  data : next.data = r.data
  inside : next.Inside
  fields : next.fields = r.fields
  spans : ∀ f, result = .field f → f.Inside r.data

variable {r : EpReader}

theorem length_remaining (r : EpReader) :
    r.remaining.length = r.data.length - r.position := by
  rw [EpReader.remaining, List.length_drop]

theorem fail_moved (inside : r.Inside) : Moved r r.fail.1 r.fail.2 where
  data := rfl
  inside := inside
  fields := rfl
  spans f found := by cases found

theorem field_moved {n : Nat} {f : EpField} (inside : r.position + n ≤ r.data.length)
    (span : f.Inside r.data) : Moved r { r with position := r.position + n } (.field f) where
  data := rfl
  inside := inside
  fields := rfl
  spans g found := by
    obtain rfl := EpNext.field.inj found
    exact span

theorem epFixed_moved (inside : r.Inside) (number wire u : Nat) :
    Moved r (epFixed r number wire u).1 (epFixed r number wire u).2 := by
  have here : r.position ≤ r.data.length := inside
  have left := length_remaining r
  rw [epFixed]
  split
  · exact fail_moved inside
  · refine field_moved (by omega) fun start found => ?_
    cases found

theorem epWire_moved (inside : r.Inside) (number wire : Nat) :
    Moved r (epWire r number wire).1 (epWire r number wire).2 := by
  have here : r.position ≤ r.data.length := inside
  have left := length_remaining r
  match wire with
  | 0 =>
      rw [epWire]
      cases found : var64 r.remaining with
      | more | bad => exact fail_moved inside
      | done u v =>
          have used := read_used found
          refine field_moved (by omega) fun start none => ?_
          cases none
  | 1 => exact epFixed_moved inside number 1 8
  | 2 =>
      rw [epWire]
      cases found : var64 r.remaining with
      | more | bad => exact fail_moved inside
      | done u v =>
          have used := read_used found
          simp only
          split
          · exact fail_moved inside
          · rw [Nat.add_assoc]
            refine field_moved (by omega) fun start place => ?_
            obtain rfl := Option.some.inj place
            simp only
            omega
  | 3 => exact fail_moved inside
  | 4 => exact fail_moved inside
  | 5 => exact epFixed_moved inside number 5 4
  | _ + 6 => exact fail_moved inside

theorem epNext_inside (inside : r.Inside) :
    (epNext r).1.data = r.data ∧ (epNext r).1.Inside ∧
      ∀ f, (epNext r).2 = .field f →
        (epNext r).1.fields = r.fields + 1 ∧ r.fields < 256 ∧ f.Inside r.data := by
  have here : r.position ≤ r.data.length := inside
  have left := length_remaining r
  rw [epNext]
  split
  · exact ⟨rfl, inside, fun f found => by cases found⟩
  · split
    · exact ⟨rfl, inside, fun f found => by cases found⟩
    · simp only
      split
      · exact ⟨rfl, inside, fun f found => by cases found⟩
      · cases found : var64 (EpReader.remaining { r with fields := r.fields + 1 }) with
        | more | bad => exact ⟨rfl, inside, fun f found => by cases found⟩
        | done u tag =>
            simp only
            split
            · exact ⟨rfl, inside, fun f found => by cases found⟩
            · have used := (read_used found).2
              have same : EpReader.remaining { r with fields := r.fields + 1 } = r.remaining := rfl
              rw [same] at used
              have behind : EpReader.Inside
                  { r with fields := r.fields + 1, position := r.position + u } := by
                rw [EpReader.Inside]
                simp only
                omega
              have moved := epWire_moved behind (tag / 8) (tag % 8)
              exact ⟨moved.data, moved.inside,
                fun f found => ⟨moved.fields, by omega, moved.spans f found⟩⟩

theorem epAfter_inside (p : Bytes) (calls : Nat) :
    (epAfter p calls).data = p ∧ (epAfter p calls).Inside := by
  induction calls with
  | zero => exact ⟨rfl, Nat.zero_le _⟩
  | succ calls ih =>
      have moved := epNext_inside ih.2
      exact ⟨moved.1.trans ih.1, moved.2.1⟩

theorem epIterate_ends {calls : Nat} (inside : r.Inside) (few : r.fields ≤ 256)
    (enough : 257 ≤ calls + r.fields) : ∃ out, epIterate calls r = some out := by
  induction calls generalizing r with
  | zero => omega
  | succ calls ih =>
      obtain ⟨-, within, counted⟩ := epNext_inside inside
      rw [epIterate]
      cases step : epNext r with
      | mk next result =>
          rw [step] at within counted
          cases result with
          | finished | bad => exact ⟨_, rfl⟩
          | field f =>
              obtain ⟨fields, room, -⟩ := counted f rfl
              simp only at fields within
              obtain ⟨out, later⟩ := ih within (by omega) (by omega)
              simp only
              rw [later]
              exact ⟨_, rfl⟩

end bounds
end LibreEcho.Esphome

/-!
Fields that are written are read back.

A run of calls that leaves the writer without error has written the fields one
behind the other; the reader, wherever it stands in front of one of them, takes
exactly that field.
-/
namespace LibreEcho.Esphome
open Varint

inductive EpCall where
  | uint (f : Nat) (v : UInt64)
  | fixed32 (f : Nat) (v : UInt32)
  | bytes (f : Nat) (p : Bytes)
  | string (f : Nat) (s : Bytes)

def EpCall.apply (w : EpWriter) : EpCall → EpWriter
  | .uint f v => epUint w f v
  | .fixed32 f v => epFixed32 w f v
  | .bytes f p => epBytes w f p
  | .string f s => epString w f s

def EpCall.number : EpCall → Nat
  | .uint f _ | .fixed32 f _ | .bytes f _ | .string f _ => f

/-- A field as a caller sees it, the place replaced by what is there. -/
structure EpSeen where
  number : Nat
  wire : Nat
  value : Nat
  content : Bytes
deriving DecidableEq

def EpCall.seen : EpCall → EpSeen
  | .uint f v => ⟨f, 0, v.toNat, []⟩
  | .fixed32 f v => ⟨f, 5, v.toNat, []⟩
  | .bytes f p => ⟨f, 2, 0, p⟩
  | .string f s => ⟨f, 2, 0, s.take (strlen s)⟩

def EpField.seen (input : Bytes) (f : EpField) : EpSeen :=
  { number := f.number
    wire := f.wire
    value := f.value
    content := match f.data with
      | none => []
      | some start => (input.drop start).take f.length }

def delimited (f : Nat) (p : Bytes) : Bytes :=
  encode (f * 8 + 2) ++ (encode p.length ++ p)

def EpCall.wireBytes : EpCall → Bytes
  | .uint f v => encode (f * 8) ++ encode v.toNat
  | .fixed32 f v => encode (f * 8 + 5) ++ leBytes 4 v.toNat
  | .bytes f p => delimited f p
  | .string f s => delimited f (s.take (strlen s))

section writing

structure Wrote (w next : EpWriter) (p : Bytes) : Prop where
  before : w.error = false
  data : next.data = w.data ++ p
  capacity : next.capacity = w.capacity

theorem Wrote.trans {w middle next : EpWriter} {p q : Bytes} (first : Wrote w middle p)
    (second : Wrote middle next q) : Wrote w next (p ++ q) where
  before := first.before
  data := by rw [second.data, first.data, List.append_assoc]
  capacity := second.capacity.trans first.capacity

theorem Wrote.length {w next : EpWriter} {p : Bytes} (wrote : Wrote w next p) :
    p.length < 2 ^ 64 := by
  have fits := next.fits
  have sized := next.sized
  rw [wrote.data, List.length_append] at fits
  omega

theorem raw_wrote {w : EpWriter} {p : Bytes} (clean : (raw w p).error = false) :
    Wrote w (raw w p) p := by
  by_cases failed : w.error = true
  · rw [raw, if_pos failed] at clean
    rw [clean] at failed
    cases failed
  · by_cases large : w.capacity - w.data.length < p.length
    · rw [raw, if_neg failed, dif_pos large] at clean
      cases clean
    · rw [raw, if_neg failed, dif_neg large]
      exact ⟨Bool.eq_false_iff.mpr failed, rfl, rfl⟩

theorem putvar_wrote {w : EpWriter} {v : Nat} (clean : (putvar w v).error = false) :
    Wrote w (putvar w v) (encode v) :=
  raw_wrote clean

theorem epBytes_wrote {w : EpWriter} {f : Nat} {p : Bytes}
    (clean : (epBytes w f p).error = false) : Wrote w (epBytes w f p) (delimited f p) := by
  have payload := raw_wrote clean
  have length := putvar_wrote payload.before
  have tag := putvar_wrote length.before
  exact tag.trans (length.trans payload)

theorem apply_wrote {w : EpWriter} {call : EpCall} (clean : (call.apply w).error = false) :
    Wrote w (call.apply w) call.wireBytes := by
  cases call with
  | uint f v =>
      have value := putvar_wrote clean
      exact (putvar_wrote value.before).trans value
  | fixed32 f v =>
      have value := raw_wrote clean
      exact (putvar_wrote value.before).trans value
  | bytes f p => exact epBytes_wrote clean
  | string f s => exact epBytes_wrote clean

def EpWriter.run (w : EpWriter) (calls : List EpCall) : EpWriter :=
  calls.foldl EpCall.apply w

theorem run_wrote {w : EpWriter} {calls : List EpCall} (clean : (w.run calls).error = false) :
    Wrote w (w.run calls) (calls.flatMap EpCall.wireBytes) := by
  induction calls generalizing w with
  | nil =>
      refine ⟨clean, ?_, rfl⟩
      rw [List.flatMap_nil, List.append_nil]
      rfl
  | cons call calls ih =>
      have later := ih clean
      rw [List.flatMap_cons]
      exact (apply_wrote later.before).trans later

end writing

section reading
variable {r : EpReader} {front tail : Bytes}

/-- The reader stands between what it has read and what it has not. -/
structure EpReader.At (r : EpReader) (front tail : Bytes) : Prop where
  data : r.data = front ++ tail
  position : r.position = front.length

theorem EpReader.At.remaining (here : r.At front tail) : r.remaining = tail := by
  rw [EpReader.remaining, here.data, here.position, List.drop_left]

theorem EpReader.At.advance {piece : Bytes} (here : r.At front (piece ++ tail)) :
    EpReader.At { r with position := r.position + piece.length } (front ++ piece) tail where
  data := by rw [here.data, List.append_assoc]
  position := by rw [here.position, List.length_append]

theorem var64_encode {v : Nat} (small : v < 2 ^ 64) (rest : Bytes) :
    var64 (encode v ++ rest) = .done (encode v).length v :=
  read_encode (by decide) 9 v (by omega) rest

theorem ofLeBytes_leBytes (count v : Nat) (small : v < 256 ^ count) :
    ofLeBytes (leBytes count v) = v := by
  induction count generalizing v with
  | zero =>
      rw [Nat.pow_zero] at small
      rw [leBytes, ofLeBytes]
      omega
  | succ count ih =>
      have higher : v / 256 < 256 ^ count := by
        rw [Nat.div_lt_iff_lt_mul (by decide), ← Nat.pow_succ]
        exact small
      rw [leBytes, ofLeBytes, ih _ higher, UInt8.toNat_ofNat']
      omega

theorem length_leBytes (count v : Nat) : (leBytes count v).length = count := by
  induction count generalizing v with
  | zero => rfl
  | succ count ih => rw [leBytes, List.length_cons, ih]

theorem epNext_tag {tag : Nat} (here : r.At front (encode tag ++ tail)) (clean : r.error = false)
    (room : r.fields < 256) (low : 8 ≤ tag) (high : tag / 8 ≤ 0x1fffffff) :
    epNext r = epWire { r with
      fields := r.fields + 1
      position := r.position + (encode tag).length } (tag / 8) (tag % 8) := by
  have ahead : r.position ≠ r.data.length := by
    have some := length_encode_pos tag
    rw [here.position, here.data, List.length_append, List.length_append]
    omega
  have same : EpReader.remaining { r with fields := r.fields + 1 } = encode tag ++ tail :=
    here.remaining
  have refused : ¬(tag < 8 ∨ 0x1fffffff < tag / 8) := by omega
  rw [epNext, if_neg (by rw [clean]; decide), if_neg ahead]
  simp only
  rw [if_neg (by omega), same, var64_encode (by omega)]
  simp only
  rw [if_neg refused]

theorem epWire_varint {v : Nat} (here : r.At front (encode v ++ tail)) (small : v < 2 ^ 64)
    (number : Nat) :
    epWire r number 0 = ({ r with position := r.position + (encode v).length },
      .field ⟨number, 0, v, none, 0⟩) := by
  rw [epWire, here.remaining, var64_encode small]

theorem epWire_fixed {v : Nat} (here : r.At front (leBytes 4 v ++ tail)) (small : v < 2 ^ 32)
    (number : Nat) :
    epWire r number 5 = ({ r with position := r.position + (leBytes 4 v).length },
      .field ⟨number, 5, v, none, 0⟩) := by
  have length := length_leBytes 4 v
  have there : ¬(leBytes 4 v ++ tail).length < 4 := by
    rw [List.length_append]
    omega
  have value : (leBytes 4 v ++ tail).take 4 = leBytes 4 v :=
    List.take_left' length
  rw [epWire, epFixed, here.remaining, if_neg there, value, ofLeBytes_leBytes 4 v (by omega), length]

theorem epWire_delimited {p : Bytes} (here : r.At front (encode p.length ++ (p ++ tail)))
    (small : p.length < 2 ^ 64) (number : Nat) :
    epWire r number 2 = ({ r with position := r.position + (encode p.length).length + p.length },
      .field ⟨number, 2, 0, some (r.position + (encode p.length).length), p.length⟩) := by
  have there : ¬(encode p.length ++ (p ++ tail)).length - (encode p.length).length < p.length := by
    rw [List.length_append, List.length_append]
    omega
  rw [epWire, here.remaining, var64_encode small]
  simp only
  rw [if_neg there]

theorem epNext_delimited {f : Nat} {p : Bytes} (here : r.At front (delimited f p ++ tail))
    (clean : r.error = false) (room : r.fields < 256) (low : 0 < f) (high : f ≤ 0x1fffffff)
    (sized : p.length < 2 ^ 64) :
    ∃ g, epNext r = ({ r with
        fields := r.fields + 1
        position := r.position + (delimited f p).length }, .field g) ∧
      g.seen r.data = ⟨f, 2, 0, p⟩ := by
  rw [delimited, List.append_assoc, List.append_assoc] at here
  have step := epNext_tag here clean room (by omega) (by omega)
  have number : (f * 8 + 2) / 8 = f ∧ (f * 8 + 2) % 8 = 2 := by omega
  have behind := EpReader.At.advance (r := { r with fields := r.fields + 1 })
    ⟨here.data, here.position⟩
  rw [number.1, number.2, epWire_delimited behind sized] at step
  refine ⟨⟨f, 2, 0, some (r.position + (encode (f * 8 + 2)).length + (encode p.length).length),
    p.length⟩, ?_, ?_⟩
  · rw [step, delimited, List.length_append, List.length_append]
    simp only [Nat.add_assoc]
  · have place : r.position + (encode (f * 8 + 2)).length + (encode p.length).length =
        (front ++ encode (f * 8 + 2) ++ encode p.length).length := by
      rw [here.position, List.length_append, List.length_append]
    have whole : r.data = front ++ encode (f * 8 + 2) ++ encode p.length ++ (p ++ tail) := by
      rw [here.data]
      simp only [List.append_assoc]
    simp only [EpField.seen]
    rw [place, whole, List.drop_left, List.take_left]

theorem epNext_call {call : EpCall} (here : r.At front (call.wireBytes ++ tail))
    (clean : r.error = false) (room : r.fields < 256) (low : 0 < call.number)
    (high : call.number ≤ 0x1fffffff) (sized : call.wireBytes.length < 2 ^ 64) :
    ∃ g, epNext r = ({ r with
        fields := r.fields + 1
        position := r.position + call.wireBytes.length }, .field g) ∧
      g.seen r.data = call.seen := by
  cases call with
  | uint f v =>
      simp only [EpCall.number] at low high
      simp only [EpCall.wireBytes, List.append_assoc] at here
      have step := epNext_tag here clean room (by omega) (by omega)
      have number : f * 8 / 8 = f ∧ f * 8 % 8 = 0 := by omega
      have behind := EpReader.At.advance (r := { r with fields := r.fields + 1 })
        ⟨here.data, here.position⟩
      rw [number.1, number.2, epWire_varint behind v.toNat_lt] at step
      refine ⟨⟨f, 0, v.toNat, none, 0⟩, ?_, rfl⟩
      rw [step, EpCall.wireBytes, List.length_append]
      simp only [Nat.add_assoc]
  | fixed32 f v =>
      simp only [EpCall.number] at low high
      simp only [EpCall.wireBytes, List.append_assoc] at here
      have step := epNext_tag here clean room (by omega) (by omega)
      have number : (f * 8 + 5) / 8 = f ∧ (f * 8 + 5) % 8 = 5 := by omega
      have behind := EpReader.At.advance (r := { r with fields := r.fields + 1 })
        ⟨here.data, here.position⟩
      rw [number.1, number.2, epWire_fixed behind v.toNat_lt] at step
      refine ⟨⟨f, 5, v.toNat, none, 0⟩, ?_, rfl⟩
      rw [step, EpCall.wireBytes, List.length_append]
      simp only [Nat.add_assoc]
  | bytes f p | string f p =>
      refine epNext_delimited here clean room low high ?_
      simp only [EpCall.wireBytes, delimited, List.length_append] at sized
      omega

theorem epIterate_calls {calls : List EpCall} (here : r.At front (calls.flatMap EpCall.wireBytes))
    (clean : r.error = false) (few : r.fields + calls.length ≤ 256)
    (numbers : ∀ call ∈ calls, 0 < call.number ∧ call.number ≤ 0x1fffffff)
    (sized : (calls.flatMap EpCall.wireBytes).length < 2 ^ 64) {steps : Nat}
    (enough : calls.length < steps) :
    ∃ fields, epIterate steps r = some (fields, .finished) ∧
      fields.map (EpField.seen r.data) = calls.map EpCall.seen := by
  induction calls generalizing r front steps with
  | nil =>
      obtain ⟨steps, rfl⟩ : ∃ k, steps = k + 1 := ⟨steps - 1, by simp at enough; omega⟩
      have at_end : r.position = r.data.length := by
        rw [here.position, here.data, List.flatMap_nil, List.append_nil]
      refine ⟨[], ?_, rfl⟩
      rw [epIterate, epNext, if_neg (by rw [clean]; decide), if_pos at_end]
  | cons call calls ih =>
      obtain ⟨steps, rfl⟩ : ∃ k, steps = k + 1 := ⟨steps - 1, by simp at enough; omega⟩
      rw [List.flatMap_cons] at here
      simp only [List.flatMap_cons, List.length_append] at sized
      simp only [List.length_cons] at few enough
      obtain ⟨low, high⟩ := numbers call List.mem_cons_self
      obtain ⟨f, step, seen⟩ := epNext_call here clean (by omega) low high (by omega)
      have behind := EpReader.At.advance (r := { r with fields := r.fields + 1 })
        ⟨here.data, here.position⟩
      obtain ⟨fields, later, same⟩ := ih behind clean (by simp only; omega)
        (fun c member => numbers c (List.mem_cons_of_mem _ member)) (by omega)
        (Nat.lt_of_succ_lt_succ enough)
      refine ⟨f :: fields, ?_, ?_⟩
      · rw [epIterate, step]
        simp only
        rw [later]
        rfl
      · rw [List.map_cons, List.map_cons, seen, ← same]

end reading

/--
What was written without error is read back field by field; whatever the bytes,
the loop ends, and neither its position nor a field leaves the message.
-/
theorem ep_roundTrip_inside :
    (∀ (capacity : Nat) (sized : capacity < 2 ^ 64) (calls : List EpCall),
      calls.length ≤ 256 → (∀ call ∈ calls, 0 < call.number ∧ call.number < 2 ^ 29) →
      ((EpWriter.start capacity sized).run calls).error = false →
      ∃ fields,
        epIterate 257 (epReaderInit ((EpWriter.start capacity sized).run calls).data) =
            some (fields, .finished) ∧
          fields.map (EpField.seen ((EpWriter.start capacity sized).run calls).data) =
            calls.map EpCall.seen) ∧
    (∀ input,
      (∃ out, epIterate 257 (epReaderInit input) = some out) ∧
      ∀ calls, (epAfter input calls).position ≤ input.length ∧
        ∀ f, (epNext (epAfter input calls)).2 = .field f → f.Inside input) := by
  refine ⟨fun capacity sized calls few numbers clean => ?_, fun input => ⟨?_, fun calls => ?_⟩⟩
  · have wrote := run_wrote clean
    have data : ((EpWriter.start capacity sized).run calls).data =
        calls.flatMap EpCall.wireBytes := wrote.data
    rw [data]
    have start : (epReaderInit (calls.flatMap EpCall.wireBytes)).At []
        (calls.flatMap EpCall.wireBytes) := ⟨rfl, rfl⟩
    exact epIterate_calls start rfl (by simpa [epReaderInit] using few)
      (fun call member => ⟨(numbers call member).1, by have := (numbers call member).2; omega⟩)
      wrote.length (by omega)
  · exact epIterate_ends (Nat.zero_le _) (Nat.zero_le _) (Nat.le_refl _)
  · obtain ⟨data, inside⟩ := epAfter_inside input calls
    rw [EpReader.Inside, data] at inside
    refine ⟨inside, fun f found => ?_⟩
    have span := ((epNext_inside (epAfter_inside input calls).2).2.2 f found).2.2
    rw [data] at span
    exact span

/-- The fields of a short message, written and read. -/
theorem ep_roundTrip_inside_hello :
    ((EpWriter.start 64 (by decide)).run
        [.uint 1 300, .string 2 [104, 105], .fixed32 3 7]).error = false ∧
      ∃ fields, epIterate 257 (epReaderInit ((EpWriter.start 64 (by decide)).run
          [.uint 1 300, .string 2 [104, 105], .fixed32 3 7]).data) = some (fields, .finished) ∧
        fields.map (EpField.seen ((EpWriter.start 64 (by decide)).run
          [.uint 1 300, .string 2 [104, 105], .fixed32 3 7]).data) =
            [⟨1, 0, 300, []⟩, ⟨2, 2, 0, [104, 105]⟩, ⟨3, 5, 7, []⟩] := by
  have clean : ((EpWriter.start 64 (by decide)).run
      [.uint 1 300, .string 2 [104, 105], .fixed32 3 7]).error = false := by
    simp [EpWriter.run, EpCall.apply, epUint, epString, epBytes, epFixed32, putvar, raw, encode,
      EpWriter.start, strlen, leBytes]
  refine ⟨clean, ep_roundTrip_inside.1 64 (by decide) _ (by decide) ?_ clean⟩
  simp [EpCall.number]

end LibreEcho.Esphome
