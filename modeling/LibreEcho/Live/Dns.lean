import Mathlib
import LibreEcho.Lib.DnsMessage

/-!
`live_dns.c`: the query name, and the address in a response.

The packet is the bytes that were received, so an index past them is a read out of bounds. The
nameserver, the identifier and the socket are the caller's.
-/
namespace LibreEcho.Live.Dns
open DnsMessage

def dnsMaxPacket : Nat := 512
def dnsMaxLabel : Nat := 63
def dnsHeader : Nat := 12

def dot : UInt8 := 0x2e

/-- A read past the bytes there are. -/
inductive Fault where
  | overrun
deriving DecidableEq, Repr

def readAt (packet : Bytes) (i : Nat) : Except Fault UInt8 :=
  match packet[i]? with
  | some b => .ok b
  | none => .error .overrun

def getU16 (packet : Bytes) (i : Nat) : Except Fault Nat :=
  (readAt packet i).bind fun high =>
  (readAt packet (i + 1)).bind fun low => .ok (high.toNat * 256 + low.toNat)

/-- `memcpy` from the packet -/
def readSlice (packet : Bytes) (i length : Nat) : Except Fault Bytes :=
  if packet.length < i + length then .error .overrun else .ok ((packet.drop i).take length)

/-! ### The query -/

/-- The labels of `encode_name`, written behind a packet in a buffer of `size` bytes. -/
def encodeLabels (size : Nat) (packet part : Bytes) : Option Bytes :=
  if part = [] then some packet
  else
    let label := part.takeWhile (· ≠ dot)
    if label = [] ∨ dnsMaxLabel < label.length ∨ size ≤ packet.length + 1 + label.length then none
    else
      let packet := packet ++ UInt8.ofNat label.length :: label
      match behind : part.dropWhile (· ≠ dot) with
      | [] => some packet
      | _ :: rest => encodeLabels size packet rest
termination_by part.length
decreasing_by
  have length := (List.dropWhile_suffix (· ≠ dot) (l := part)).length_le
  rw [behind, List.length_cons] at length
  exact length

def encodeName (size : Nat) (packet hostname : Bytes) : Option Bytes :=
  if hostname = [] ∨ 253 < hostname.length then none
  else
    (encodeLabels size packet hostname).bind fun packet =>
      if size ≤ packet.length then none else some (packet ++ [0])

/-! ### The response -/

/-- The loop of `skip_name`; `none` for -1. -/
def skipNameLoop (packet : Bytes) : Nat → Nat → Except Fault (Option Nat)
  | 0, _ => .ok none
  | labels + 1, position =>
      if packet.length ≤ position then .ok none
      else
        (readAt packet position).bind fun length =>
        let position := position + 1
        if length = 0 then .ok (some position)
        else if length &&& 0xc0 = 0xc0 then
          if packet.length ≤ position then .ok none else .ok (some (position + 1))
        else if dnsMaxLabel < length.toNat ∨ packet.length < position + length.toNat then .ok none
        else skipNameLoop packet labels (position + length.toNat)

def skipName (packet : Bytes) (offset : Nat) : Except Fault (Option Nat) :=
  skipNameLoop packet 128 offset

def answersLoop (packet : Bytes) : Nat → Nat → Except Fault (Option Bytes)
  | 0, _ => .ok none
  | answers + 1, offset =>
      (skipName packet offset).bind fun skipped =>
      match skipped with
      | none => .ok none
      | some offset =>
          if packet.length < offset + 10 then .ok none
          else
            (getU16 packet offset).bind fun type =>
            (getU16 packet (offset + 2)).bind fun klass =>
            (getU16 packet (offset + 8)).bind fun length =>
            let offset := offset + 10
            if packet.length < offset + length then .ok none
            else if type = 1 ∧ klass = 1 ∧ length = 4 then
              (readSlice packet offset 4).map some
            else answersLoop packet answers (offset + length)

/-- What `le_live_dns_resolve_ipv4` makes of a received packet. -/
def readResponse (id : Nat) (packet : Bytes) : Except Fault (Option Bytes) :=
  if packet.length < dnsHeader then .ok none
  else
    (getU16 packet 0).bind fun answerId =>
    (readAt packet 2).bind fun flags =>
    (readAt packet 3).bind fun code =>
    (getU16 packet 4).bind fun questions =>
    if answerId ≠ id ∨ flags &&& 0x80 = 0 ∨ code &&& 0x0f ≠ 0 ∨ questions ≠ 1 then .ok none
    else
      (getU16 packet 6).bind fun answers =>
      (skipName packet dnsHeader).bind fun skipped =>
      match skipped with
      | none => .ok none
      | some offset =>
          if packet.length < offset + 4 then .ok none
          else answersLoop packet answers (offset + 4)

end LibreEcho.Live.Dns

/-!
The DNS client reads answers exactly.

A position in the packet is followed by the bytes from there on. Over these each function does what
the wire form says of them, and no read goes past them.
-/
namespace LibreEcho.Live.Dns
open DnsMessage

/-! ### Reading -/

structure At (packet : Bytes) (offset : Nat) (rest : Bytes) : Prop where
  inside : offset ≤ packet.length
  rest : packet.drop offset = rest

section Reading
variable {packet rest front : Bytes} {offset : Nat} {b b₁ b₂ : UInt8}

theorem At.length (at_ : At packet offset rest) : packet.length = offset + rest.length := by
  have dropped := List.length_drop (i := offset) (l := packet)
  rw [at_.rest] at dropped
  have inside := at_.inside
  omega

theorem At.append (at_ : At packet offset (front ++ rest)) :
    At packet (offset + front.length) rest := by
  have length := at_.length
  rw [List.length_append] at length
  refine ⟨by omega, ?_⟩
  rw [← List.drop_drop, at_.rest, List.drop_left]

theorem At.next (at_ : At packet offset (b :: rest)) : At packet (offset + 1) rest :=
  At.append (show At packet offset ([b] ++ rest) from at_)

theorem At.read (at_ : At packet offset (b :: rest)) : readAt packet offset = .ok b := by
  have here : packet[offset]? = some b := by
    rw [← List.head?_drop, at_.rest, List.head?_cons]
  rw [readAt, here]

theorem At.getU16 (at_ : At packet offset (b₁ :: b₂ :: rest)) :
    getU16 packet offset = .ok (word b₁ b₂) := by
  rw [Dns.getU16, at_.read, Except.bind, at_.next.read]
  rfl

theorem At.slice (at_ : At packet offset (front ++ rest)) :
    readSlice packet offset front.length = .ok front := by
  have length := at_.length
  rw [List.length_append] at length
  rw [readSlice, if_neg (by omega), at_.rest, List.take_left]

theorem At.enough (at_ : At packet offset rest) {n : Nat} (enough : ¬packet.length < offset + n) :
    ∃ front back, front.length = n ∧ rest = front ++ back := by
  have length := at_.length
  exact ⟨rest.take n, rest.drop n, List.length_take_of_le (by omega), (List.take_append_drop n rest).symm⟩

end Reading

/-! ### Names -/

theorem isPointer_iff {b : UInt8} : isPointer b = true ↔ b &&& 0xc0 = 0xc0 :=
  beq_iff_eq

theorem not_pointer {b : UInt8} (short : b.toNat ≤ labelMax) : ¬b &&& 0xc0 = 0xc0 := by
  have all : ∀ n : Fin 64, ¬UInt8.ofNat n &&& 0xc0 = 0xc0 := by decide
  rw [labelMax] at short
  have same := all ⟨b.toNat, by omega⟩
  rwa [UInt8.ofNat_toNat] at same

theorem skipNameLoop_name {packet name rest : Bytes} {offset labels n : Nat} (isName : Name n name)
    (at_ : At packet offset (name ++ rest)) (enough : n < labels) :
    skipNameLoop packet labels offset = .ok (some (offset + name.length)) := by
  induction isName generalizing offset labels with
  | root =>
      obtain ⟨labels, rfl⟩ := Nat.exists_eq_succ_of_ne_zero (Nat.ne_of_gt enough)
      have length := at_.length
      rw [List.length_append, List.length_singleton] at length
      rw [skipNameLoop, if_neg (by omega), At.read at_]
      rfl
  | pointer pointer =>
      rename_i high low
      obtain ⟨labels, rfl⟩ := Nat.exists_eq_succ_of_ne_zero (Nat.ne_of_gt enough)
      have length := at_.length
      rw [List.length_append, List.length_cons, List.length_singleton] at length
      have nonzero : high ≠ 0 := fun zero => by
        rw [zero] at pointer
        exact absurd pointer (by decide)
      rw [skipNameLoop, if_neg (by omega), At.read at_]
      show (if high = 0 then _ else _) = _
      rw [if_neg nonzero, if_pos (isPointer_iff.mp pointer), if_neg (by omega)]
      rfl
  | @label n length body rest' nonzero short bodyLength _ ih =>
      obtain ⟨labels, rfl⟩ := Nat.exists_eq_succ_of_ne_zero (Nat.ne_of_gt (Nat.zero_lt_of_lt enough))
      have whole := at_.length
      rw [List.cons_append, List.append_assoc] at at_
      have enough' : n < labels := Nat.lt_of_succ_lt_succ enough
      have later := ih (At.append at_.next) enough'
      simp only [List.length_append, List.length_cons] at whole
      rw [skipNameLoop, if_neg (by omega), At.read at_]
      show (if length = 0 then _ else _) = _
      rw [if_neg nonzero, if_neg (not_pointer short), if_neg, ← bodyLength, later]
      · simp only [List.length_append, List.length_cons]
        congr 2
        omega
      · rw [labelMax] at short
        rw [dnsMaxLabel]
        omega

def Skips (labels offset : Nat) (rest : Bytes) (x : Except Fault (Option Nat)) : Prop :=
  x = .ok none ∨ ∃ n name back, Name n name ∧ n < labels ∧ rest = name ++ back ∧
    x = .ok (some (offset + name.length))

theorem Skips.label {labels offset : Nat} {length : UInt8} {body rest : Bytes}
    {x : Except Fault (Option Nat)} (nonzero : length ≠ 0) (short : length.toNat ≤ labelMax)
    (bodyLength : body.length = length.toNat)
    (later : Skips labels (offset + 1 + body.length) rest x) :
    Skips (labels + 1) offset (length :: (body ++ rest)) x := by
  rcases later with none | ⟨n, name, back, isName, enough, same, some⟩
  · exact .inl none
  · refine .inr ⟨n + 1, length :: (body ++ name), back, .label nonzero short bodyLength isName,
      by omega, by rw [same, List.cons_append, List.append_assoc], ?_⟩
    rw [some]
    simp only [List.length_append, List.length_cons]
    congr 2
    omega

theorem skipNameLoop_sound {packet rest : Bytes} {offset labels : Nat}
    (at_ : At packet offset rest) :
    Skips labels offset rest (skipNameLoop packet labels offset) := by
  induction labels generalizing offset rest with
  | zero => exact .inl rfl
  | succ labels ih =>
      have whole := at_.length
      rw [skipNameLoop]
      cases rest with
      | nil => exact .inl (if_pos (Nat.le_of_eq whole))
      | cons length rest =>
          rw [List.length_cons] at whole
          rw [if_neg (by omega), At.read at_]
          show Skips _ _ _ (if length = 0 then _ else _)
          split
          case isTrue zero =>
            exact .inr ⟨0, [0], rest, .root, Nat.succ_pos labels, by rw [zero]; rfl, rfl⟩
          case isFalse nonzero =>
            split
            case isTrue pointer =>
              split
              case isTrue => exact .inl rfl
              case isFalse inside =>
                cases rest with
                | nil => exact absurd (Nat.le_of_eq whole) inside
                | cons low rest =>
                    exact .inr ⟨0, [length, low], rest, .pointer (isPointer_iff.mpr pointer),
                      Nat.succ_pos labels, rfl, rfl⟩
            case isFalse =>
              split
              case isTrue => exact .inl rfl
              case isFalse fits =>
                rw [dnsMaxLabel] at fits
                obtain ⟨body, back, bodyLength, rfl⟩ :=
                  at_.next.enough (n := length.toNat) (by omega)
                have later := ih (At.append at_.next)
                rw [bodyLength] at later
                exact .label nonzero (by rw [labelMax]; omega) bodyLength (bodyLength.symm ▸ later)

theorem skipName_name {packet name rest : Bytes} {offset n : Nat} (isName : Name n name)
    (at_ : At packet offset (name ++ rest)) (enough : n ≤ labelsMax) :
    skipName packet offset = .ok (some (offset + name.length)) :=
  skipNameLoop_name isName at_ (Nat.lt_succ_of_le enough)

/-! ### Answers -/

/-- Nothing is returned, or the first address among the answers. -/
def Finds (answers : Nat) (rest : Bytes) (x : Except Fault (Option Bytes)) : Prop :=
  x = .ok none ∨ ∃ address, FirstAddress answers rest address ∧ x = .ok (some address)

theorem answersLoop_record {packet record rest data : Bytes} {offset answers type klass : Nat}
    (isRecord : Record type klass data record) (at_ : At packet offset (record ++ rest)) :
    answersLoop packet (answers + 1) offset =
      if IsAddress type klass data then .ok (some data)
      else answersLoop packet answers (offset + record.length) := by
  obtain ⟨isName, few, ttlLength, dataLength⟩ := isRecord
  rename_i n name ttl t₁ t₂ c₁ c₂ l₁ l₂
  rw [List.append_assoc] at at_
  have body := at_.append
  have whole := body.length
  simp only [List.cons_append, List.append_assoc] at body whole
  have fields := body.next.next
  have size : At packet (offset + name.length + 4 + ttl.length) _ := At.append fields.next.next
  rw [ttlLength] at size
  have bytes : At packet (offset + name.length + 10) (data ++ rest) := size.next.next
  simp only [List.length_cons, List.length_append] at whole
  rw [answersLoop, skipName_name isName at_ few]
  show (if packet.length < offset + name.length + 10 then _ else _) = _
  rw [if_neg (by omega), body.getU16, Except.bind, fields.getU16, Except.bind, size.getU16,
    Except.bind]
  show (if packet.length < offset + name.length + 10 + word l₁ l₂ then _ else _) = _
  rw [if_neg (by omega), ← dataLength]
  by_cases address : IsAddress (word t₁ t₂) (word c₁ c₂) data
  case pos =>
    have four := bytes.slice
    rw [address.2.2] at four
    rw [if_pos address, four]
    exact if_pos address
  case neg =>
    have past : offset + name.length + 10 + data.length =
        offset + (name ++ t₁ :: t₂ :: c₁ :: c₂ :: (ttl ++ l₁ :: l₂ :: data)).length := by
      simp only [List.length_append, List.length_cons]
      omega
    rw [if_neg address, past]
    exact if_neg address

theorem answersLoop_found {packet rest address : Bytes} {offset answers : Nat}
    (found : FirstAddress answers rest address) (at_ : At packet offset rest) :
    answersLoop packet answers offset = .ok (some address) := by
  induction found generalizing offset with
  | here isRecord isAddress => rw [answersLoop_record isRecord at_, if_pos isAddress]
  | later isRecord other _ ih => rw [answersLoop_record isRecord at_, if_neg other, ih at_.append]

theorem answersLoop_ends {packet rest : Bytes} {offset answers : Nat} (at_ : At packet offset rest) :
    answersLoop packet (answers + 1) offset = .ok none ∨
      ∃ type klass data record back, Record type klass data record ∧ rest = record ++ back := by
  have skips : Skips 128 offset rest (skipNameLoop packet 128 offset) := skipNameLoop_sound at_
  rcases skips with none | ⟨n, name, back, isName, few, rfl, some⟩
  · refine .inl ?_
    rw [answersLoop, skipName, none]
    rfl
  · rw [answersLoop, skipName, some]
    show (if packet.length < offset + name.length + 10 then _ else _) = _ ∨ _
    have behind := at_.append
    split
    case isTrue => exact .inl rfl
    case isFalse ten =>
      obtain ⟨front, back, length, rfl⟩ := behind.enough ten
      match front, length with
      | [t₁, t₂, c₁, c₂, u₁, u₂, u₃, u₄, l₁, l₂], _ =>
          have fields : At packet (offset + name.length + 2) _ := behind.next.next
          have size : At packet (offset + name.length + 8) _ :=
            fields.next.next.next.next.next.next
          have bytes : At packet (offset + name.length + 10) back := size.next.next
          rw [At.getU16 behind, Except.bind, At.getU16 fields, Except.bind, At.getU16 size,
            Except.bind]
          show (if packet.length < offset + name.length + 10 + word l₁ l₂ then _ else _) = _ ∨ _
          split
          case isTrue => exact .inl rfl
          case isFalse fits =>
            obtain ⟨data, back, dataLength, rfl⟩ := bytes.enough fits
            have ttl : [u₁, u₂, u₃, u₄].length = 4 := rfl
            have record : Record (word t₁ t₂) (word c₁ c₂) data _ :=
              .parts isName (Nat.le_of_lt_succ few) ttl dataLength
            exact .inr ⟨_, _, data, _, back, record,
              by simp only [List.append_assoc, List.cons_append, List.nil_append]⟩

theorem answersLoop_sound {packet rest : Bytes} {offset answers : Nat}
    (at_ : At packet offset rest) : Finds answers rest (answersLoop packet answers offset) := by
  induction answers generalizing offset rest with
  | zero => exact .inl rfl
  | succ answers ih =>
      rcases answersLoop_ends at_ with none | ⟨type, klass, data, record, back, isRecord, rfl⟩
      · exact .inl none
      · rw [answersLoop_record isRecord at_]
        split
        case isTrue address => exact .inr ⟨data, .here isRecord address, rfl⟩
        case isFalse other =>
          rcases ih at_.append with none | ⟨address, found, some⟩
          · exact .inl none
          · exact .inr ⟨address, .later isRecord other found, some⟩

/-! ### Responses -/

theorem response_bit (b : UInt8) : b &&& 0x80 = 0 ↔ ¬0x80 ≤ b := by
  have all : ∀ n : Fin 256, UInt8.ofNat n &&& 0x80 = 0 ↔ ¬0x80 ≤ UInt8.ofNat n := by decide +kernel
  have same := all ⟨b.toNat, b.toNat_lt⟩
  rwa [UInt8.ofNat_toNat] at same

def Accepts (id : Nat) (i₁ i₂ f₁ f₂ q₁ q₂ : UInt8) : Prop :=
  word i₁ i₂ = id ∧ 0x80 ≤ f₁ ∧ f₂ &&& 0x0f = 0 ∧ word q₁ q₂ = 1

instance (id : Nat) (i₁ i₂ f₁ f₂ q₁ q₂ : UInt8) : Decidable (Accepts id i₁ i₂ f₁ f₂ q₁ q₂) :=
  inferInstanceAs (Decidable (_ ∧ _ ∧ _ ∧ _))

/-- The question and the answers behind the first twelve bytes. -/
def readAnswers (packet : Bytes) (answers : Nat) : Except Fault (Option Bytes) :=
  (skipName packet 12).bind fun skipped =>
  match skipped with
  | none => .ok none
  | some offset =>
      if packet.length < offset + 4 then .ok none else answersLoop packet answers (offset + 4)

section Header
variable {id : Nat} {i₁ i₂ f₁ f₂ q₁ q₂ a₁ a₂ : UInt8} {counts rest packet : Bytes}
  (four : counts.length = 4)
  (whole : packet = i₁ :: i₂ :: f₁ :: f₂ :: q₁ :: q₂ :: a₁ :: a₂ :: (counts ++ rest))
include four whole

theorem at_question : At packet 12 rest := by
  have start : At packet 0 (i₁ :: i₂ :: f₁ :: f₂ :: q₁ :: q₂ :: a₁ :: a₂ :: (counts ++ rest)) :=
    ⟨Nat.zero_le _, whole⟩
  have behind : At packet (8 + counts.length) rest :=
    At.append start.next.next.next.next.next.next.next.next
  rwa [four] at behind

theorem readResponse_header :
    readResponse id packet =
      if Accepts id i₁ i₂ f₁ f₂ q₁ q₂ then readAnswers packet (word a₁ a₂) else .ok none := by
  have start : At packet 0 (i₁ :: i₂ :: f₁ :: f₂ :: q₁ :: q₂ :: a₁ :: a₂ :: (counts ++ rest)) :=
    ⟨Nat.zero_le _, whole⟩
  have flags : At packet 2 _ := start.next.next
  have questions : At packet 4 _ := flags.next.next
  have answers : At packet 6 _ := questions.next.next
  have length := start.length
  simp only [List.length_cons, List.length_append] at length
  rw [readResponse, dnsHeader, if_neg (by omega), start.getU16, Except.bind, flags.read, Except.bind,
    flags.next.read, Except.bind, questions.getU16, Except.bind, answers.getU16, Except.bind]
  have refused : (word i₁ i₂ ≠ id ∨ f₁ &&& 0x80 = 0 ∨ f₂ &&& 0x0f ≠ 0 ∨ word q₁ q₂ ≠ 1) ↔
      ¬Accepts id i₁ i₂ f₁ f₂ q₁ q₂ := by
    rw [response_bit]
    simp only [Accepts, Classical.not_and_iff_not_or_not, ne_eq]
  by_cases accepts : Accepts id i₁ i₂ f₁ f₂ q₁ q₂
  case pos =>
    rw [if_pos accepts]
    exact if_neg fun refuse => refused.mp refuse accepts
  case neg =>
    rw [if_neg accepts]
    exact if_pos (refused.mpr accepts)

end Header

theorem readAnswers_found {packet question asked records address : Bytes} {n answers : Nat}
    (isName : Name n question) (few : n ≤ labelsMax) (four : asked.length = 4)
    (found : FirstAddress answers records address)
    (at_ : At packet 12 (question ++ (asked ++ records))) :
    readAnswers packet answers = .ok (some address) := by
  have behind := at_.append
  have length := behind.length
  rw [List.length_append] at length
  have answersAt := behind.append
  rw [four] at answersAt
  rw [readAnswers, skipName_name isName at_ few]
  show (if packet.length < 12 + question.length + 4 then _ else _) = _
  rw [if_neg (by omega), answersLoop_found found answersAt]

theorem readAnswers_sound {packet rest : Bytes} {answers : Nat} (at_ : At packet 12 rest) :
    readAnswers packet answers = .ok none ∨
      ∃ n question asked records address, Name n question ∧ n ≤ labelsMax ∧ asked.length = 4 ∧
        rest = question ++ (asked ++ records) ∧ FirstAddress answers records address ∧
        readAnswers packet answers = .ok (some address) := by
  have skips : Skips 128 12 rest (skipNameLoop packet 128 12) := skipNameLoop_sound at_
  rcases skips with none | ⟨n, question, back, isName, few, rfl, some⟩
  · refine .inl ?_
    rw [readAnswers, skipName, none]
    rfl
  · have behind := at_.append
    by_cases short : packet.length < 12 + question.length + 4
    case pos =>
      refine .inl ?_
      rw [readAnswers, skipName, some]
      exact if_pos short
    case neg =>
      obtain ⟨asked, records, four, rfl⟩ := behind.enough short
      have answersAt := behind.append
      rw [four] at answersAt
      have found : Finds answers records (answersLoop packet answers _) :=
        answersLoop_sound answersAt
      rcases found with none | ⟨address, found, _⟩
      · refine .inl ?_
        rw [readAnswers, skipName, some]
        exact (if_neg short).trans none
      · exact .inr ⟨n, question, asked, records, address, isName, Nat.le_of_lt_succ few, four, rfl,
          found, readAnswers_found isName (Nat.le_of_lt_succ few) four found at_⟩

theorem readResponse_found {id : Nat} {packet address : Bytes} (answered : Answered id packet address) :
    readResponse id packet = .ok (some address) := by
  cases answered with
  | parts same response noError one four isName few asked found =>
      rw [readResponse_header four rfl, if_pos ⟨same, response, noError, one⟩,
        readAnswers_found isName few asked found (at_question four rfl)]

theorem readResponse_sound (id : Nat) (packet : Bytes) :
    readResponse id packet = .ok none ∨
      ∃ address, Answered id packet address ∧ readResponse id packet = .ok (some address) := by
  by_cases short : packet.length < 12
  case pos => exact .inl (if_pos short)
  case neg =>
    have start : At packet 0 packet := ⟨Nat.zero_le _, rfl⟩
    obtain ⟨front, rest, length, whole⟩ := start.enough (n := 12) (by omega)
    match front, length with
    | [i₁, i₂, f₁, f₂, q₁, q₂, a₁, a₂, u₁, u₂, u₃, u₄], _ =>
        have four : [u₁, u₂, u₃, u₄].length = 4 := rfl
        rw [readResponse_header four whole]
        split
        case isFalse => exact .inl rfl
        case isTrue accepts =>
          obtain ⟨same, response, noError, one⟩ := accepts
          rcases readAnswers_sound (at_question four whole) with
            none | ⟨n, question, asked, records, address, isName, few, asked', rfl, found, some⟩
          · exact .inl none
          · refine .inr ⟨address, ?_, some⟩
            rw [whole]
            exact .parts same response noError one four isName few asked' found

theorem readResponse_answered (id : Nat) (packet : Bytes) :
    (∃ found, readResponse id packet = .ok found) ∧
      ∀ address, readResponse id packet = .ok (some address) ↔ Answered id packet address := by
  have sound := readResponse_sound id packet
  refine ⟨?_, fun address => ⟨fun some => ?_, readResponse_found⟩⟩
  · rcases sound with none | ⟨address, _, some⟩
    · exact ⟨_, none⟩
    · exact ⟨address, some⟩
  · rcases sound with none | ⟨address', answered, some'⟩
    · rw [none] at some
      cases some
    · rw [some'] at some
      cases some
      exact answered

/-! ### The query's name -/

def hostText : List Bytes → Bytes
  | [] => []
  | [label] => label
  | label :: other :: rest => label ++ dot :: hostText (other :: rest)

def IsHostLabel (label : Bytes) : Prop :=
  IsLabel label ∧ dot ∉ label

instance (label : Bytes) : Decidable (IsHostLabel label) :=
  inferInstanceAs (Decidable ((_ ∧ _) ∧ _))

theorem hostText_length {labels : List Bytes} (filled : labels ≠ []) :
    (hostText labels).length + 2 = (nameText labels).length := by
  induction labels with
  | nil => exact absurd rfl filled
  | cons label labels ih =>
      rw [nameText_cons, List.length_append, labelText, List.length_cons]
      cases labels with
      | nil => rfl
      | cons other rest =>
          have rest := ih (List.cons_ne_nil _ _)
          rw [hostText, List.length_append, List.length_cons]
          omega

section Label
variable {label : Bytes} (free : dot ∉ label)
include free

theorem label_free : ∀ b ∈ label, decide (b ≠ dot) = true := fun b member =>
  decide_eq_true fun same => free (same ▸ member)

theorem takeWhile_label (rest : Bytes) : (label ++ dot :: rest).takeWhile (· ≠ dot) = label := by
  rw [List.takeWhile_append_of_pos (label_free free), List.takeWhile_cons_of_neg (by decide),
    List.append_nil]

theorem dropWhile_label (rest : Bytes) :
    (label ++ dot :: rest).dropWhile (· ≠ dot) = dot :: rest := by
  rw [List.dropWhile_append_of_pos (label_free free), List.dropWhile_cons_of_neg (by decide)]

theorem takeWhile_last : label.takeWhile (· ≠ dot) = label :=
  List.takeWhile_eq_self_iff.mpr (label_free free)

theorem dropWhile_last : label.dropWhile (· ≠ dot) = [] :=
  List.dropWhile_eq_nil_iff.mpr (label_free free)

def Refused (size : Nat) (packet label : Bytes) : Prop :=
  label = [] ∨ dnsMaxLabel < label.length ∨ size ≤ packet.length + 1 + label.length

theorem encodeLabels_last {size : Nat} {packet : Bytes} (fits : ¬Refused size packet label) :
    encodeLabels size packet label = some (packet ++ labelText label) := by
  have filled : label ≠ [] := fun none => fits (.inl none)
  rw [Refused] at fits
  rw [encodeLabels, if_neg filled]
  simp only [takeWhile_last free]
  rw [if_neg fits]
  split
  case h_1 => rfl
  case h_2 b rest behind =>
    rw [dropWhile_last free] at behind
    cases behind

theorem encodeLabels_more {size : Nat} {packet : Bytes} (fits : ¬Refused size packet label)
    (rest : Bytes) :
    encodeLabels size packet (label ++ dot :: rest) =
      encodeLabels size (packet ++ labelText label) rest := by
  have filled : label ++ dot :: rest ≠ [] := List.append_ne_nil_of_right_ne_nil _ (List.cons_ne_nil _ _)
  rw [Refused] at fits
  rw [encodeLabels, if_neg filled]
  simp only [takeWhile_label free]
  rw [if_neg fits]
  split
  case h_1 behind =>
    rw [dropWhile_label free] at behind
    cases behind
  case h_2 b rest' behind =>
    rw [dropWhile_label free] at behind
    cases behind
    rfl

end Label

theorem encodeLabels_host {size : Nat} {packet : Bytes} {labels : List Bytes}
    (filled : labels ≠ []) (each : ∀ label ∈ labels, IsHostLabel label)
    (room : packet.length + (nameText labels).length ≤ size) :
    encodeLabels size packet (hostText labels) = some (packet ++ labels.flatMap labelText) := by
  induction labels generalizing packet with
  | nil => exact absurd rfl filled
  | cons label labels ih =>
      obtain ⟨isLabel, free⟩ := each label List.mem_cons_self
      have short := isLabel.2
      rw [labelMax] at short
      rw [nameText_cons, List.length_append, labelText, List.length_cons] at room
      have ending : 0 < (nameText labels).length := by
        rw [nameText, List.length_append]
        exact Nat.succ_pos _
      have fits : ¬Refused size packet label := by
        rintro (none | long | full)
        · exact isLabel.1 none
        · rw [dnsMaxLabel] at long
          omega
        · omega
      cases labels with
      | nil =>
          rw [hostText, encodeLabels_last free fits, List.flatMap_singleton]
      | cons other rest =>
          have wider : (packet ++ labelText label).length = packet.length + (label.length + 1) := by
            rw [List.length_append, labelText, List.length_cons]
          have later := @ih (packet ++ labelText label) (List.cons_ne_nil _ _)
            (fun l member => each l (List.mem_cons_of_mem label member)) (by omega)
          have cut : (label :: other :: rest).flatMap labelText =
              labelText label ++ (other :: rest).flatMap labelText := List.flatMap_cons
          rw [hostText, encodeLabels_more free fits, later, cut, List.append_assoc]

theorem encodeName_skipped {labels : List Bytes} (filled : labels ≠ [])
    (each : ∀ label ∈ labels, IsHostLabel label) (short : (nameText labels).length ≤ 255)
    {header : Bytes} (length : header.length = dnsHeader) (rest : Bytes) :
    encodeName dnsMaxPacket header (hostText labels) = some (header ++ nameText labels) ∧
      skipName (header ++ nameText labels ++ rest) dnsHeader =
        .ok (some (dnsHeader + (nameText labels).length)) := by
  have isLabels := fun label member => (each label member).1
  have hostLength := hostText_length filled
  have count := labels_le isLabels
  rw [dnsHeader] at length
  refine ⟨?_, ?_⟩
  · have host : ¬(hostText labels = [] ∨ 253 < (hostText labels).length) := by
      rintro (none | long)
      · rw [none, List.length_nil] at hostLength
        have some := List.length_pos_of_ne_nil filled
        omega
      · omega
    have whole : (header ++ labels.flatMap labelText).length + 1 =
        12 + (nameText labels).length := by
      rw [nameText, List.length_append, List.length_append, length]
      rfl
    rw [encodeName, if_neg host, encodeLabels_host filled each (by rw [dnsMaxPacket]; omega),
      Option.bind_some, if_neg (by rw [dnsMaxPacket]; omega), nameText, List.append_assoc]
  · have start : At (header ++ nameText labels ++ rest) 0 (header ++ (nameText labels ++ rest)) :=
      ⟨Nat.zero_le _, List.append_assoc _ _ _⟩
    have at_ := start.append
    rw [Nat.zero_add, length] at at_
    exact skipName_name (nameText_name isLabels) at_ (by rw [labelsMax]; omega)

/-- The query's name is skipped exactly, and a response is read exactly. -/
theorem liveDns_exact :
    (∀ (labels : List Bytes) (header rest : Bytes), labels ≠ [] →
      (∀ label ∈ labels, IsHostLabel label) → (nameText labels).length ≤ 255 →
      header.length = dnsHeader →
      encodeName dnsMaxPacket header (hostText labels) = some (header ++ nameText labels) ∧
        skipName (header ++ nameText labels ++ rest) dnsHeader =
          .ok (some (dnsHeader + (nameText labels).length))) ∧
    ∀ (id : Nat) (packet : Bytes), (∃ found, readResponse id packet = .ok found) ∧
      ∀ address, readResponse id packet = .ok (some address) ↔ Answered id packet address :=
  ⟨fun _ _ rest filled each short length => encodeName_skipped filled each short length rest,
    readResponse_answered⟩

/-- "a.bc" -/
theorem liveDns_exact_host :
    encodeName dnsMaxPacket (List.replicate 12 0) [0x61, dot, 0x62, 0x63] =
      some (List.replicate 12 0 ++ [1, 0x61, 2, 0x62, 0x63, 0]) :=
  (liveDns_exact.1 [[0x61], [0x62, 0x63]] (List.replicate 12 0) [] (by decide)
    (by decide) (by decide) rfl).1

end LibreEcho.Live.Dns
