import Mathlib
import LibreEcho.Lib.OnesComplement

/-!
The checksum and the reply filter of `gateway_probe.c`.

A read outside of the packet is `none`. The sum of `le_gateway_probe_checksum` is a
`uint32_t`; the gateway's address is compared as the four bytes it has in memory.
-/
namespace LibreEcho.Network

open BigEndian OnesComplement

def ipv4MinHeader : Nat := 20
def icmpHeaderSize : Nat := 8
def icmpEchoReply : UInt8 := 0
def ipprotoIcmp : UInt8 := 1

def readU16 (p : Bytes) (i : Nat) : Option Nat := do
  let high ← p[i]?
  let low ← p[i + 1]?
  return get [high, low]

def writeU16 (p : Bytes) (i value : Nat) : Bytes :=
  (p.set i (.ofNat (value / 256))).set (i + 1) (.ofNat (value % 256))

/-- The words from `i` on, added to the sum. -/
def checksumLoop (p : Bytes) (i : Nat) : Nat → Nat → Option Nat
  | length + 2, sum => do
      let word ← readU16 p i
      checksumLoop p (i + 2) length ((sum + word) % 2 ^ 32)
  | 1, sum => do
      let last ← p[i]?
      return (sum + get [last, 0]) % 2 ^ 32
  | 0, sum => some sum

def foldCarries (sum : Nat) : Nat :=
  if sum / 2 ^ 16 = 0 then sum else foldCarries (sum % 2 ^ 16 + sum / 2 ^ 16)
termination_by sum
decreasing_by omega

def leGatewayProbeChecksum (p : Bytes) (i length : Nat) : Option Nat :=
  (checksumLoop p i length 0).map fun sum => 2 ^ 16 - 1 - foldCarries sum

def icmpMatches (p : Bytes) (icmp length identifier sequence : Nat) : Option Bool := do
  let type ← p[icmp]?
  let code ← p[icmp + 1]?
  let readId ← readU16 p (icmp + 4)
  let readSequence ← readU16 p (icmp + 6)
  if type ≠ icmpEchoReply ∨ code ≠ 0 ∨ readId ≠ identifier ∨ readSequence ≠ sequence then
    return false
  else
    let sum ← leGatewayProbeChecksum p icmp (length - icmp)
    return sum == 0

def leGatewayProbeReplyMatches (packet : Option Bytes) (length : Nat) (gatewayAddr : Bytes)
    (identifier sequence : Nat) : Option Bool :=
  match packet with
  | none => some false
  | some p =>
      if length < ipv4MinHeader + icmpHeaderSize then some false
      else do
        let first ← p[0]?
        let ipTotalLength ← readU16 p 2
        let fragment ← readU16 p 6
        let protocol ← p[9]?
        let ipHeaderLength := first.toNat % 16 * 4
        if first.toNat / 16 ≠ 4 ∨ ipHeaderLength < ipv4MinHeader ∨
            length < ipHeaderLength + icmpHeaderSize ∨ ipTotalLength ≠ length ∨
            protocol ≠ ipprotoIcmp ∨ fragment &&& (2 ^ 16 - 1 - 0x4000) ≠ 0 then
          return false
        else
          let sum ← leGatewayProbeChecksum p 0 ipHeaderLength
          if sum ≠ 0 ∨ (p.drop 12).take 4 ≠ gatewayAddr then return false
          else icmpMatches p ipHeaderLength length identifier sequence

/-! ### The checksum -/

theorem getElem?_of_drop {p : Bytes} {i : Nat} {s : Bytes} (here : p.drop i = s) (j : Nat) :
    p[i + j]? = s[j]? := by
  rw [← here, List.getElem?_drop]

theorem readU16_here {p rest : Bytes} {i : Nat} {a b : UInt8} (here : p.drop i = a :: b :: rest) :
    readU16 p i = some (get [a, b]) := by
  have high : p[i]? = some a := getElem?_of_drop here 0
  have low : p[i + 1]? = some b := getElem?_of_drop here 1
  rw [readU16, high, low]
  rfl

theorem checksumLoop_words {p s rest : Bytes} {i sum : Nat} (here : p.drop i = s ++ rest)
    (small : sum + (words s).sum < 2 ^ 32) :
    checksumLoop p i s.length sum = some (sum + (words s).sum) := by
  fun_induction words s generalizing i sum with
  | case1 a b s ih =>
      rw [List.sum_cons, ← Nat.add_assoc] at small
      have later : p.drop (i + 2) = s ++ rest := by rw [← List.drop_drop, here]; rfl
      rw [List.length_cons, List.length_cons, checksumLoop, readU16_here here, List.sum_cons,
        ← Nat.add_assoc]
      simp only [Option.bind_eq_bind, Option.bind_some]
      rw [Nat.mod_eq_of_lt (by omega)]
      exact ih later small
  | case2 a =>
      have last : p[i]? = some a := getElem?_of_drop here 0
      rw [List.sum_singleton] at small
      rw [List.length_singleton, checksumLoop, last, List.sum_singleton]
      simp only [Option.bind_eq_bind, Option.bind_some, pure]
      rw [Nat.mod_eq_of_lt small]
  | case3 => rfl

theorem foldCarries_folded (n : Nat) : Folded n (foldCarries n) := by
  fun_induction foldCarries n with
  | case1 n short => exact Folded.refl (by simp only [ones]; omega)
  | case2 n long ih =>
      obtain ⟨short, same, zero⟩ := ih
      simp only [ones] at *
      exact ⟨short, by simp only [ones]; omega, by omega⟩

theorem leGatewayProbeChecksum_eq {p s rest : Bytes} {i : Nat} (here : p.drop i = s ++ rest)
    (short : s.length ≤ 65535) :
    leGatewayProbeChecksum p i s.length = some (ones - total (words s)) := by
  have small : 0 + (words s).sum < 2 ^ 32 := by
    have := words_length s
    have := sum_le (words_le (s := s))
    simp only [ones] at this
    omega
  rw [leGatewayProbeChecksum, checksumLoop_words here small, Option.map_some, Nat.zero_add,
    (foldCarries_folded _).unique (total_folded s)]
  rfl

theorem leGatewayProbeChecksum_whole {s : Bytes} (short : s.length ≤ 65535) :
    leGatewayProbeChecksum s 0 s.length = some (ones - total (words s)) :=
  leGatewayProbeChecksum_eq (List.append_nil s).symm short

theorem checksum_zero {s : Bytes} : ones - total (words s) = 0 ↔ Verifies s := by
  have := (total_folded s).short
  rw [Verifies]
  omega

theorem field_split {s : Bytes} {i : Nat} (inside : i + 2 ≤ s.length) :
    ∃ a b, s = s.take i ++ a :: b :: s.drop (i + 2) := by
  refine ⟨s[i], s[i + 1], ?_⟩
  rw [← List.drop_eq_getElem_cons, ← List.drop_eq_getElem_cons, List.take_append_drop]

theorem writeU16_split {front back : Bytes} (a b : UInt8) (value : Nat) :
    writeU16 (front ++ a :: b :: back) front.length value =
      front ++ .ofNat (value / 256) :: .ofNat (value % 256) :: back := by
  rw [writeU16, List.set_append_right _ _ (Nat.le_refl _), Nat.sub_self, List.set_cons_zero,
    List.set_append_right _ _ (Nat.le_add_right _ 1), Nat.add_sub_cancel_left, List.set_cons_succ,
    List.set_cons_zero]

theorem get_stored {value : Nat} (short : value ≤ ones) :
    get [UInt8.ofNat (value / 256), UInt8.ofNat (value % 256)] = value := by
  simp only [ones] at short
  rw [get_pair, UInt8.toNat_ofNat', UInt8.toNat_ofNat']
  omega

theorem checksum_stored {s : Bytes} {i : Nat} (even : i % 2 = 0) (inside : i + 2 ≤ s.length)
    (short : s.length ≤ 65535) (high : s[i]? = some 0) (low : s[i + 1]? = some 0) :
    ∃ value, leGatewayProbeChecksum s 0 s.length = some value ∧
      leGatewayProbeChecksum (writeU16 s i value) 0 s.length = some 0 := by
  obtain ⟨a, b, split⟩ := field_split inside
  have length : (s.take i).length = i := List.length_take_of_le (by omega)
  generalize s.take i = front at split length
  generalize s.drop (i + 2) = back at split
  obtain rfl : front.length = i := length
  subst split
  obtain rfl : a = 0 := by simpa using high
  obtain rfl : b = 0 := by simpa using low
  refine ⟨_, leGatewayProbeChecksum_whole short, ?_⟩
  have below : ones - total (words (front ++ 0 :: 0 :: back)) ≤ ones := Nat.sub_le _ _
  have stored := verifies_stored even (get_stored below)
  rw [writeU16_split]
  generalize UInt8.ofNat _ = a at stored ⊢
  generalize UInt8.ofNat _ = b at stored ⊢
  have size : (front ++ a :: b :: back).length = (front ++ 0 :: 0 :: back).length := by
    simp only [List.length_append, List.length_cons]
  rw [← size] at short ⊢
  rw [leGatewayProbeChecksum_whole short, checksum_zero.mpr stored]

/-! ### The reply filter -/

def field (p : Bytes) (i count : Nat) : Nat :=
  get ((p.drop i).take count)

def headerLength (p : Bytes) : Nat :=
  field p 0 1 % 16 * 4

/-- A packet of IPv4 whose header verifies and which is no fragment. -/
structure WholeIpv4 (p : Bytes) : Prop where
  version : field p 0 1 / 16 = 4
  header : 20 ≤ headerLength p ∧ headerLength p ≤ p.length
  total : field p 2 2 = p.length
  /-- Nothing but "do not fragment" may be set beside the offset, which is zero. -/
  flags : field p 6 2 = 0 ∨ field p 6 2 = 0x4000
  verifies : Verifies (p.take (headerLength p))

structure EchoReply (identifier sequence : Nat) (icmp : Bytes) : Prop where
  long : 8 ≤ icmp.length
  type : field icmp 0 1 = 0
  code : field icmp 1 1 = 0
  identifier : field icmp 4 2 = identifier
  sequence : field icmp 6 2 = sequence
  verifies : Verifies icmp

/-- A packet of IPv4 from the gateway that carries the reply. -/
structure RepliesFrom (gateway : Bytes) (identifier sequence : Nat) (p : Bytes) : Prop where
  packet : WholeIpv4 p
  protocol : field p 9 1 = 1
  source : (p.drop 12).take 4 = gateway
  reply : EchoReply identifier sequence (p.drop (headerLength p))

theorem field_drop (p : Bytes) (i j count : Nat) :
    field (p.drop i) j count = field p (i + j) count := by
  rw [field, List.drop_drop, field]

theorem byte_field {p : Bytes} {i : Nat} (inside : i < p.length) :
    ∃ b, p[i]? = some b ∧ field p i 1 = b.toNat := by
  refine ⟨p[i], List.getElem?_eq_getElem inside, ?_⟩
  rw [field, List.drop_eq_getElem_cons inside, List.take_succ_cons, List.take_zero]
  simp only [BigEndian.get, List.foldl_cons, List.foldl_nil, Nat.zero_mul, Nat.zero_add]

theorem readU16_field {p : Bytes} {i : Nat} (inside : i + 2 ≤ p.length) :
    readU16 p i = some (field p i 2) := by
  have here := List.drop_eq_getElem_cons (l := p) (i := i) (by omega)
  rw [List.drop_eq_getElem_cons (l := p) (i := i + 1) (by omega)] at here
  rw [readU16_here here, field, here, List.take_succ_cons, List.take_succ_cons, List.take_zero]

theorem field_lt (p : Bytes) (i count : Nat) : field p i count < 256 ^ count :=
  Nat.lt_of_lt_of_le (get_lt _) (Nat.pow_le_pow_right (by decide) (List.length_take_le _ _))

theorem fragment_masked {n : Nat} (short : n < 2 ^ 16) :
    n &&& (2 ^ 16 - 1 - 0x4000) = 0 ↔ n = 0 ∨ n = 0x4000 := by
  constructor
  · intro masked
    have whole : n = n &&& (2 ^ 16 - 1) := by
      rw [Nat.and_two_pow_sub_one_eq_mod, Nat.mod_eq_of_lt short]
    have parts : 2 ^ 16 - 1 = (2 ^ 16 - 1 - 0x4000) ||| 2 ^ 14 := by decide
    rw [parts, Nat.and_or_distrib_left, masked, Nat.zero_or, Nat.and_two_pow] at whole
    cases set : n.testBit 14 with
    | false => exact .inl (by simpa [set] using whole)
    | true => exact .inr (by simpa [set] using whole)
  · rintro (rfl | rfl) <;> decide

theorem icmpMatches_reply {p : Bytes} {i : Nat} (inside : i + 8 ≤ p.length)
    (short : p.length ≤ 65535) (identifier sequence : Nat) :
    ∃ accepted, icmpMatches p i p.length identifier sequence = some accepted ∧
      (accepted = true ↔ EchoReply identifier sequence (p.drop i)) := by
  obtain ⟨type, here, typed⟩ := byte_field (p := p) (i := i) (by omega)
  obtain ⟨code, next, coded⟩ := byte_field (p := p) (i := i + 1) (by omega)
  have size : (p.drop i).length = p.length - i := List.length_drop
  have sum := leGatewayProbeChecksum_eq (List.append_nil (p.drop i)).symm (by omega)
  rw [size] at sum
  simp only [icmpMatches, here, next, readU16_field (show i + 4 + 2 ≤ p.length by omega),
    readU16_field (show i + 6 + 2 ≤ p.length by omega), Option.bind_eq_bind, Option.bind_some, sum,
    pure]
  split
  case isTrue refused =>
    refine ⟨false, rfl, (by rintro ⟨⟩), fun reply => ?_⟩
    obtain ⟨_, isReply, zero, identified, inOrder, _⟩ := reply
    rw [field_drop] at isReply zero identified inOrder
    rw [Nat.add_zero, typed] at isReply
    rw [coded] at zero
    obtain other | other | other | other := refused
    · exact absurd (UInt8.toNat_inj.mp isReply) other
    · exact absurd (UInt8.toNat_inj.mp zero) other
    · exact absurd identified other
    · exact absurd inOrder other
  case isFalse taken =>
    simp only [not_or, ne_eq, not_not] at taken
    obtain ⟨rfl, rfl, identified, inOrder⟩ := taken
    refine ⟨_, rfl, ?_⟩
    rw [beq_iff_eq, checksum_zero]
    constructor
    · exact fun verifies =>
        { long := by omega
          type := by rw [field_drop]; exact typed
          code := by rw [field_drop, coded]; rfl
          identifier := by rw [field_drop, identified]
          sequence := by rw [field_drop, inOrder]
          verifies := verifies }
    · exact fun reply => reply.verifies

theorem leGatewayProbeReplyMatches_replies (p gateway : Bytes) (identifier sequence : Nat) :
    ∃ accepted,
      leGatewayProbeReplyMatches (some p) p.length gateway identifier sequence = some accepted ∧
      (accepted = true ↔ RepliesFrom gateway identifier sequence p) := by
  have minHeader : ipv4MinHeader = 20 := rfl
  have icmpHeader : icmpHeaderSize = 8 := rfl
  rw [leGatewayProbeReplyMatches]
  by_cases short : p.length < ipv4MinHeader + icmpHeaderSize
  · refine ⟨false, if_pos short, (by rintro ⟨⟩), fun replies => ?_⟩
    have header := replies.packet.header.1
    have long := replies.reply.long
    rw [List.length_drop] at long
    omega
  · rw [if_neg short]
    obtain ⟨first, here, version⟩ := byte_field (p := p) (i := 0) (by omega)
    obtain ⟨protocol, there, carried⟩ := byte_field (p := p) (i := 9) (by omega)
    have flags := fragment_masked (field_lt p 6 2)
    have header : field p 0 1 % 16 * 4 = headerLength p := rfl
    simp only [here, there, readU16_field (show 2 + 2 ≤ p.length by omega),
      readU16_field (show 6 + 2 ≤ p.length by omega), Option.bind_eq_bind, Option.bind_some, pure,
      ← version, header, ne_eq, flags]
    split
    case isTrue refused =>
      refine ⟨false, rfl, (by rintro ⟨⟩), fun replies => ?_⟩
      have packet := replies.packet
      have long := replies.reply.long
      rw [List.length_drop] at long
      obtain other | other | other | other | other | other := refused
      · exact absurd packet.version other
      · exact absurd packet.header.1 (by omega)
      · exact absurd packet.header.1 (by omega)
      · exact absurd packet.total other
      · have icmp : protocol = ipprotoIcmp :=
          UInt8.toNat_inj.mp (carried.symm.trans replies.protocol)
        exact absurd icmp other
      · exact absurd packet.flags other
    case isFalse taken =>
      simp only [not_or, Decidable.not_not, Nat.not_lt] at taken
      obtain ⟨four, least, inside, total, icmp, whole⟩ := taken
      have short : p.length ≤ 65535 := by
        have := field_lt p 2 2
        omega
      have length : (p.take (headerLength p)).length = headerLength p :=
        List.length_take_of_le (by omega)
      have sum := leGatewayProbeChecksum_eq (p := p) (i := 0)
        (List.take_append_drop (headerLength p) p).symm (by omega)
      rw [length] at sum
      obtain ⟨accepted, read, reply⟩ :=
        icmpMatches_reply (p := p) (i := headerLength p) inside short identifier sequence
      simp only [sum, Option.bind_some]
      split
      case isTrue refused =>
        refine ⟨false, rfl, (by rintro ⟨⟩), fun replies => ?_⟩
        exact refused.elim (absurd (checksum_zero.mpr replies.packet.verifies)) (absurd replies.source)
      case isFalse held =>
        simp only [not_or, Decidable.not_not] at held
        refine ⟨accepted, read, reply.trans ⟨fun reply => ?_, RepliesFrom.reply⟩⟩
        exact
          { packet := ⟨four, ⟨least, by omega⟩, total, by omega, checksum_zero.mp held.1⟩
            protocol := by rw [carried, icmp]; rfl
            source := held.2
            reply := reply }

structure ProbeLaw : Prop where
  /-- A field of zeros is overwritten with the checksum of its buffer. -/
  stored : ∀ (s : Bytes) i, s.length ≤ 65535 → i % 2 = 0 → i + 2 ≤ s.length → s[i]? = some 0 →
    s[i + 1]? = some 0 → ∃ value, leGatewayProbeChecksum s 0 s.length = some value ∧
      leGatewayProbeChecksum (writeU16 s i value) 0 s.length = some 0
  /-- Every packet is answered from its own bytes, and accepted if it is the reply. -/
  filtered : ∀ p gateway identifier sequence, ∃ accepted,
    leGatewayProbeReplyMatches (some p) p.length gateway identifier sequence = some accepted ∧
      (accepted = true ↔ RepliesFrom gateway identifier sequence p)

/-- The checksum verifies itself, and the filter takes the replies that were asked for. -/
theorem gatewayProbe_law : ProbeLaw where
  stored _ _ short even inside high low := checksum_stored even inside short high low
  filtered p gateway identifier sequence :=
    leGatewayProbeReplyMatches_replies p gateway identifier sequence

end LibreEcho.Network
