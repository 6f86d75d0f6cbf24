import LibreEcho.Mdns.Packet

/-!
What is encoded is decoded, and what is decoded is valid.

An accepted packet, in whatever order and spelling its fields came, stands for a
record that encodes to a packet with the same record.
-/
namespace LibreEcho.Mdns
open ByteText

section esphome
variable {capacity port : Nat} {m : Metadata}

theorem metadataValid_field (valid : metadataValid m = true) (f : Field) :
    0 < (m.get f).length ∧ (m.get f).length < f.size ∧ 0 ∉ m.get f := by
  simp only [metadataValid, Bool.and_eq_true] at valid
  have each := List.all_eq_true.mp valid.1.1.1.1.1 f (mem_fields f)
  simp only [fieldValid, Bool.and_eq_true, decide_eq_true_eq] at each
  exact ⟨each.1.1, each.1.2, utf8Valid_noNul each.2⟩

theorem encodeFields_eq {fs : List Field} {message out : Bytes}
    (encoded : encodeFields capacity m fs message = some out) :
    out = message ++ fs.flatMap (fieldText m) := by
  induction fs generalizing message with
  | nil =>
      obtain rfl := Option.some.inj encoded
      rw [List.flatMap_nil, List.append_nil]
  | cons f fs ih =>
      rw [encodeFields] at encoded
      split at encoded
      · cases encoded
      · rw [ih encoded, List.flatMap_cons, List.append_assoc]

theorem encodeFields_fits {fs : List Field} {message : Bytes}
    (room : message.length + (fs.flatMap (fieldText m)).length < capacity) :
    encodeFields capacity m fs message = some (message ++ fs.flatMap (fieldText m)) := by
  induction fs generalizing message with
  | nil => rw [encodeFields, List.flatMap_nil, List.append_nil]
  | cons f fs ih =>
      have length := length_fieldText m f
      rw [List.flatMap_cons, List.length_append] at room
      rw [encodeFields, if_neg (by omega), ih (by rw [List.length_append]; omega),
        List.flatMap_cons, List.append_assoc]

theorem length_decimal_port (small : port ≤ maxPort) : (decimal port).length ≤ 5 := by
  rw [decimal, List.length_map, Nat.length_toDigits_le_iff (by decide) (by decide)]
  exact Nat.lt_of_le_of_lt small (by decide)

theorem decimal_port_head (positive : 0 < port) :
    ∃ b digits, decimal port = b :: digits ∧ portStart b = true := by
  cases text : decimal port with
  | nil => exact absurd text (decimal_ne_nil port)
  | cons b digits =>
      refine ⟨b, digits, rfl, ?_⟩
      have digit : isDigit b = true := decimal_isDigit (n := port) (by
        rw [text]
        exact List.mem_cons_self)
      have leading : b ≠ 0x30 := by
        have first := decimal_head positive
        rw [text] at first
        exact fun zero => first (by rw [zero]; rfl)
      have low : b.toNat ≠ 48 := fun same => leading (UInt8.toNat_inj.mp same)
      simp only [isDigit, portStart, Bool.and_eq_true, decide_eq_true_eq, UInt8.le_iff_toNat_le]
        at digit ⊢
      have bounds : (0x30 : UInt8).toNat = 48 ∧ (0x31 : UInt8).toNat = 49 := by decide
      omega

theorem decimal_noNul (n : Nat) : 0 ∉ decimal n := by
  intro member
  have digit := decimal_isDigit member
  cases digit

def esphomeText (port : Nat) (m : Metadata) : Bytes :=
  esphomeMark ++ decimal port ++ fields.flatMap (fieldText m) ++ [newline]

theorem encode_esphomeText {message : Bytes}
    (encoded : leMdnsEsphomeEncode capacity port m = some message) :
    message = esphomeText port m ∧ message.length < leMdnsEsphomePacketMax ∧
      0 < port ∧ port ≤ maxPort ∧ metadataValid m = true := by
  rw [leMdnsEsphomeEncode] at encoded
  split at encoded
  · cases encoded
  · rename_i accepted
    simp only at encoded
    split at encoded
    · cases encoded
    · cases texts : encodeFields capacity m fields (esphomeMark ++ decimal port) with
      | none =>
          rw [texts] at encoded
          cases encoded
      | some out =>
          simp only [texts] at encoded
          split at encoded
          · cases encoded
          · obtain rfl := Option.some.inj encoded
            have valid : metadataValid m = true := by
              by_contra invalid
              exact accepted (.inr (.inr (.inr (Bool.eq_false_iff.mpr invalid))))
            refine ⟨by rw [encodeFields_eq texts]; rfl, ?_, by omega, by omega, valid⟩
            rw [List.length_append]
            simp only [List.length_singleton]
            omega

theorem length_texts (valid : metadataValid m = true) (fs : List Field) :
    (fs.flatMap (fieldText m)).length ≤ (fs.map fun f => f.key.length + 2 * f.size).sum := by
  induction fs with
  | nil => exact Nat.le_refl _
  | cons f fs ih =>
      have field := metadataValid_field valid f
      rw [List.flatMap_cons, List.length_append, length_fieldText, List.map_cons, List.sum_cons]
      omega

theorem leMdnsEsphomeEncode_fits (positive : 0 < port) (small : port ≤ maxPort)
    (valid : metadataValid m = true) (room : leMdnsEsphomePacketMax ≤ capacity) :
    leMdnsEsphomeEncode capacity port m = some (esphomeText port m) := by
  have digits := length_decimal_port small
  have mark : esphomeMark.length = 10 := by decide
  have packet : leMdnsEsphomePacketMax = 1536 := rfl
  have texts := length_texts valid fields
  have total : (fields.map fun f => f.key.length + 2 * f.size).sum = 728 := by decide
  have header : (esphomeMark ++ decimal port).length ≤ 15 := by
    rw [List.length_append]
    omega
  have accepted : ¬(capacity = 0 ∨ port = 0 ∨ maxPort < port ∨ metadataValid m = false) := by
    rw [valid]
    simp only [Bool.true_eq_false, or_false]
    omega
  rw [leMdnsEsphomeEncode, if_neg accepted]
  simp only
  rw [if_neg (by omega), encodeFields_fits (by omega)]
  simp only
  rw [if_neg (by rw [List.length_append]; omega)]
  rfl

theorem texts_noNul (m : Metadata) (fs : List Field) :
    0 ∉ fs.flatMap (fieldText m) := by
  intro member
  obtain ⟨f, -, inside⟩ := List.mem_flatMap.mp member
  have zero : ¬(0 : UInt8) = space ∧ ¬(0 : UInt8) = equals := by decide
  simp only [fieldText, List.cons_append, List.mem_cons, List.mem_append, zero, false_or] at inside
  rcases inside with key | value
  · exact (key_plain f 0 key).2 rfl
  · exact (mem_hexPairs value).1 rfl

theorem parseEsphome_text (positive : 0 < port) (small : port ≤ maxPort)
    (valid : metadataValid m = true)
    (short : (esphomeText port m).length < leMdnsEsphomePacketMax) :
    parseEsphome (esphomeText port m) = some (port, m) := by
  have mark : esphomeMark.length = 10 := by decide
  have whole : esphomeText port m =
      esphomeMark ++ (decimal port ++ (fields.flatMap (fieldText m) ++ [newline])) := by
    simp only [esphomeText, List.append_assoc]
  obtain ⟨b, digits, number, leading⟩ := decimal_port_head positive
  have texts : fields.length ≤ (fields.flatMap (fieldText m)).length := by
    have nine : fields.length = 9 := rfl
    have first := length_fieldText m .version
    have split : fields.flatMap (fieldText m) =
        fieldText m .version ++ fields.tail.flatMap (fieldText m) := rfl
    have key : Field.version.key.length = 7 := by decide
    have value := (metadataValid_field valid .version).1
    rw [split, List.length_append]
    omega
  have accepted : ¬((esphomeText port m).length < 12 ∨
      leMdnsEsphomePacketMax ≤ (esphomeText port m).length ∨
      (esphomeText port m).take 10 ≠ esphomeMark ∨
      (esphomeText port m).getLast? ≠ some newline ∨ 0 ∈ esphomeText port m ∨
      portStart ((esphomeText port m).getD 10 0) = false) := by
    rintro (brief | long | marked | last | nul | zero)
    · have nine : fields.length = 9 := rfl
      rw [whole, List.length_append, List.length_append, List.length_append, number,
        List.length_cons, List.length_singleton] at brief
      omega
    · omega
    · rw [whole, List.take_left' mark] at marked
      exact marked rfl
    · rw [esphomeText, List.getLast?_concat] at last
      exact last rfl
    · have fixed : 0 ∉ esphomeMark ∧ 0 ∉ [newline] := by decide
      rw [whole, List.mem_append, List.mem_append, List.mem_append] at nul
      rcases nul with first | port | texts | last
      · exact fixed.1 first
      · exact decimal_noNul _ port
      · exact texts_noNul m fields texts
      · exact fixed.2 last
    · rw [whole, List.getD_eq_getElem?_getD, List.getElem?_append_right (Nat.le_of_eq mark), mark,
        number, List.cons_append, Nat.sub_self, List.getElem?_cons_zero, Option.getD_some,
        leading] at zero
      cases zero
  have stop : DigitFree (fields.flatMap (fieldText m) ++ [newline]) := by
    intro c member
    have first : (fields.flatMap (fieldText m) ++ [newline]).head? = some space := rfl
    rw [first] at member
    obtain rfl := Option.some.inj member
    decide
  rw [parseEsphome, if_neg accepted, whole, List.drop_left' mark, readPort_decimal small stop]
  simp only
  rw [List.dropLast_concat, readFields_texts (by decide) (fun f _ => metadataValid_field valid f)
    (fun f _ => List.not_mem_nil) (by rw [List.length_append]; omega), set_fields]
  simp only [List.append_nil]
  rw [if_pos ⟨fun f member => List.mem_reverse.mpr member, valid⟩]

theorem portStart_bounds {message : Bytes} {n port : Nat} {rest : Bytes}
    (start : portStart (message.getD n 0) = true)
    (read : readPort 0 (message.drop n) = some (port, rest)) : 0 < port ∧ port ≤ maxPort := by
  refine ⟨?_, (readPort_bounds (Nat.zero_le _) read).2⟩
  rw [List.getD_eq_getElem?_getD, ← List.head?_drop] at start
  cases text : message.drop n with
  | nil =>
      rw [text] at start
      cases start
  | cons b s =>
      have bytes : (0x30 : UInt8).toNat = 48 ∧ (0x31 : UInt8).toNat = 49 ∧
          (0x39 : UInt8).toNat = 57 := by decide
      rw [text, List.head?_cons, Option.getD_some, portStart, Bool.and_eq_true, decide_eq_true_eq,
        decide_eq_true_eq, UInt8.le_iff_toNat_le, UInt8.le_iff_toNat_le] at start
      have digit : isDigit b = true := by
        rw [isDigit, Bool.and_eq_true, decide_eq_true_eq, decide_eq_true_eq,
          UInt8.le_iff_toNat_le, UInt8.le_iff_toNat_le]
        omega
      rw [text, readPort, if_pos digit] at read
      split at read
      · cases read
      · have lower := (readPort_bounds (by omega) read).1
        omega

theorem parseEsphome_valid {message : Bytes} (parsed : parseEsphome message = some (port, m)) :
    0 < port ∧ port ≤ maxPort ∧ metadataValid m = true := by
  rw [parseEsphome] at parsed
  split at parsed
  · cases parsed
  · rename_i accepted
    cases read : readPort 0 (message.drop 10) with
    | none =>
        rw [read] at parsed
        cases parsed
    | some found =>
        obtain ⟨number, behind⟩ := found
        rw [read] at parsed
        simp only at parsed
        cases taken : readFields behind.length behind.dropLast .empty [] with
        | none =>
            rw [taken] at parsed
            cases parsed
        | some found =>
            obtain ⟨record, seen⟩ := found
            rw [taken] at parsed
            simp only at parsed
            split at parsed
            · rename_i complete
              obtain ⟨rfl, rfl⟩ := Prod.mk.inj (Option.some.inj parsed)
              have start : portStart (message.getD 10 0) = true := by
                by_contra other
                exact accepted (.inr (.inr (.inr (.inr (.inr (Bool.eq_false_iff.mpr other))))))
              obtain ⟨low, high⟩ := portStart_bounds start read
              exact ⟨low, high, complete.2⟩
            · cases parsed

end esphome

section sendspin
variable {capacity nameCapacity port : Nat} {name : Bytes}

def sendspinText (port : Nat) (name : Bytes) : Bytes :=
  sendspinMark ++ decimal port ++ sendspinKey ++ hexPairs name ++ [newline]

theorem sendspinNameValid_bounds (valid : sendspinNameValid name = true) :
    0 < name.length ∧ name.length < 64 ∧ 0 ∉ name := by
  simp only [sendspinNameValid, Bool.and_eq_true, decide_eq_true_eq] at valid
  exact ⟨valid.1.1, valid.1.2, utf8Valid_noNul valid.2⟩

theorem length_sendspinText (port : Nat) (name : Bytes) :
    (sendspinText port name).length = 18 + (decimal port).length + name.length * 2 := by
  have fixed : sendspinMark.length = 11 ∧ sendspinKey.length = 6 := by decide
  simp only [sendspinText, List.length_append, length_hexPairs, List.length_singleton]
  omega

theorem encode_sendspinText {message : Bytes}
    (encoded : leMdnsSendspinEncode capacity port name = some message) :
    message = sendspinText port name ∧ 0 < port ∧ port ≤ maxPort ∧
      sendspinNameValid name = true := by
  rw [leMdnsSendspinEncode] at encoded
  split at encoded
  · cases encoded
  · rename_i accepted
    simp only at encoded
    split at encoded
    · cases encoded
    · split at encoded
      · cases encoded
      · obtain rfl := Option.some.inj encoded
        refine ⟨rfl, by omega, by omega, ?_⟩
        by_contra invalid
        exact accepted (.inr (.inr (Bool.eq_false_iff.mpr invalid)))

theorem leMdnsSendspinEncode_fits (positive : 0 < port) (small : port ≤ maxPort)
    (valid : sendspinNameValid name = true) (room : leMdnsSendspinPacketMax ≤ capacity) :
    leMdnsSendspinEncode capacity port name = some (sendspinText port name) := by
  have digits := length_decimal_port small
  have bounds := sendspinNameValid_bounds valid
  have fixed : sendspinMark.length = 11 ∧ sendspinKey.length = 6 := by decide
  have packet : leMdnsSendspinPacketMax = 192 := rfl
  have header : (sendspinMark ++ decimal port ++ sendspinKey).length ≤ 22 := by
    rw [List.length_append, List.length_append]
    omega
  have accepted : ¬(port = 0 ∨ maxPort < port ∨ sendspinNameValid name = false) := by
    rw [valid]
    simp only [Bool.true_eq_false, or_false]
    omega
  rw [leMdnsSendspinEncode, if_neg accepted]
  simp only
  rw [if_neg (by omega), if_neg (by omega)]
  rfl

theorem parseSendspin_text (positive : 0 < port) (small : port ≤ maxPort)
    (valid : sendspinNameValid name = true) (room : 64 ≤ nameCapacity) :
    parseSendspin nameCapacity (sendspinText port name) = some (port, name) := by
  have fixed : sendspinMark.length = 11 ∧ sendspinKey.length = 6 := by decide
  have bounds := sendspinNameValid_bounds valid
  have digits := length_decimal_port small
  have length := length_sendspinText port name
  have packet : leMdnsSendspinPacketMax = 192 := rfl
  obtain ⟨b, tail, number, leading⟩ := decimal_port_head positive
  have one : 0 < (decimal port).length := by
    rw [number]
    exact Nat.succ_pos _
  have whole : sendspinText port name =
      sendspinMark ++ (decimal port ++ (sendspinKey ++ (hexPairs name ++ [newline]))) := by
    simp only [sendspinText, List.append_assoc]
  have accepted : ¬(nameCapacity < 64 ∨ (sendspinText port name).length < 20 ∨
      leMdnsSendspinPacketMax ≤ (sendspinText port name).length ∨
      (sendspinText port name).take 11 ≠ sendspinMark ∨
      (sendspinText port name).getLast? ≠ some newline ∨ 0 ∈ sendspinText port name ∨
      portStart ((sendspinText port name).getD 11 0) = false) := by
    rintro (narrow | brief | long | marked | last | nul | zero)
    · omega
    · omega
    · omega
    · rw [whole, List.take_left' fixed.1] at marked
      exact marked rfl
    · rw [sendspinText, List.getLast?_concat] at last
      exact last rfl
    · have plain : 0 ∉ sendspinMark ∧ 0 ∉ sendspinKey ∧ 0 ∉ [newline] := by decide
      rw [whole, List.mem_append, List.mem_append, List.mem_append, List.mem_append] at nul
      rcases nul with first | port | key | pairs | last
      · exact plain.1 first
      · exact decimal_noNul _ port
      · exact plain.2.1 key
      · exact (mem_hexPairs pairs).1 rfl
      · exact plain.2.2 last
    · rw [whole, List.getD_eq_getElem?_getD, List.getElem?_append_right (Nat.le_of_eq fixed.1),
        fixed.1, number, List.cons_append, Nat.sub_self, List.getElem?_cons_zero,
        Option.getD_some, leading] at zero
      cases zero
  have stop : DigitFree (sendspinKey ++ (hexPairs name ++ [newline])) := by
    intro c member
    have first : (sendspinKey ++ (hexPairs name ++ [newline])).head? = some space := rfl
    rw [first] at member
    obtain rfl := Option.some.inj member
    decide
  have keyed : ¬((sendspinKey ++ (hexPairs name ++ [newline])).length < 6 ∨
      (sendspinKey ++ (hexPairs name ++ [newline])).take 6 ≠ sendspinKey) := by
    rw [List.take_left' fixed.2, List.length_append]
    simp only [ne_eq, not_true_eq_false, or_false]
    omega
  have sized : ¬((hexPairs name).length = 0 ∨ (hexPairs name).length % 2 ≠ 0 ∨
      64 ≤ (hexPairs name).length / 2) := by
    rw [length_hexPairs]
    omega
  have kept : ¬(strlen name ≠ name.length ∨ sendspinNameValid name = false) := by
    rw [strlen_eq bounds.2.2, valid]
    simp
  rw [parseSendspin, if_neg accepted, whole, List.drop_left' fixed.1, readPort_decimal small stop]
  simp only
  rw [if_neg keyed, List.drop_left' fixed.2, List.dropLast_concat, if_neg sized,
    readPairs_hexPairs (.inl rfl)]
  simp only
  rw [if_neg kept]

theorem parseSendspin_valid {message : Bytes}
    (parsed : parseSendspin nameCapacity message = some (port, name)) :
    64 ≤ nameCapacity ∧ 0 < port ∧ port ≤ maxPort ∧ sendspinNameValid name = true := by
  rw [parseSendspin] at parsed
  split at parsed
  · cases parsed
  · rename_i accepted
    cases read : readPort 0 (message.drop 11) with
    | none =>
        rw [read] at parsed
        cases parsed
    | some found =>
        obtain ⟨number, behind⟩ := found
        rw [read] at parsed
        simp only at parsed
        split at parsed
        · cases parsed
        · split at parsed
          · cases parsed
          · cases pairs : readPairs true (behind.drop 6).dropLast with
            | none =>
                rw [pairs] at parsed
                cases parsed
            | some bytes =>
                rw [pairs] at parsed
                simp only at parsed
                split at parsed
                · cases parsed
                · rename_i kept
                  obtain ⟨rfl, rfl⟩ := Prod.mk.inj (Option.some.inj parsed)
                  have start : portStart (message.getD 11 0) = true := by
                    by_contra other
                    exact accepted (.inr (.inr (.inr (.inr (.inr (.inr
                      (Bool.eq_false_iff.mpr other)))))))
                  obtain ⟨low, high⟩ := portStart_bounds start read
                  refine ⟨by omega, low, high, ?_⟩
                  by_contra invalid
                  exact kept (.inr (Bool.eq_false_iff.mpr invalid))

end sendspin

theorem leMdnsEsphomeDecode_ok {message : Bytes} {out out' : Nat × Metadata} :
    leMdnsEsphomeDecode message out = (0, out') ↔ parseEsphome message = some out' := by
  rw [leMdnsEsphomeDecode]
  cases parseEsphome message <;> simp

theorem leMdnsSendspinDecode_ok {message : Bytes} {nameCapacity : Nat} {out out' : Nat × Bytes} :
    leMdnsSendspinDecode message nameCapacity out = (0, out') ↔
      parseSendspin nameCapacity message = some out' := by
  rw [leMdnsSendspinDecode]
  cases parseSendspin nameCapacity message <;> simp

/--
Valid records and names are encoded and decoded to themselves; an accepted packet
holds a valid one, whose own packet holds the same; a refused packet writes nothing.
-/
theorem mdnsLease_roundTrip :
    (∀ m port, metadataValid m = true → 0 < port → port ≤ maxPort →
      (∀ capacity, leMdnsEsphomePacketMax ≤ capacity →
        (leMdnsEsphomeEncode capacity port m).isSome) ∧
      ∀ capacity message out, leMdnsEsphomeEncode capacity port m = some message →
        leMdnsEsphomeDecode message out = (0, (port, m))) ∧
    (∀ name port, sendspinNameValid name = true → 0 < port → port ≤ maxPort →
      (∀ capacity, leMdnsSendspinPacketMax ≤ capacity →
        (leMdnsSendspinEncode capacity port name).isSome) ∧
      ∀ capacity message nameCapacity out, 64 ≤ nameCapacity →
        leMdnsSendspinEncode capacity port name = some message →
        leMdnsSendspinDecode message nameCapacity out = (0, (port, name))) ∧
    (∀ packet out port m, leMdnsEsphomeDecode packet out = (0, (port, m)) →
      metadataValid m = true ∧ ∃ message,
        leMdnsEsphomeEncode leMdnsEsphomePacketMax port m = some message ∧
          ∀ out, leMdnsEsphomeDecode message out = (0, (port, m))) ∧
    (∀ packet nameCapacity out port name,
      leMdnsSendspinDecode packet nameCapacity out = (0, (port, name)) →
      sendspinNameValid name = true ∧ ∃ message,
        leMdnsSendspinEncode leMdnsSendspinPacketMax port name = some message ∧
          ∀ out, leMdnsSendspinDecode message nameCapacity out = (0, (port, name))) ∧
    (∀ packet out, (leMdnsEsphomeDecode packet out).1 ≠ 0 →
      leMdnsEsphomeDecode packet out = (-1, out)) ∧
    (∀ packet nameCapacity out, (leMdnsSendspinDecode packet nameCapacity out).1 ≠ 0 →
      leMdnsSendspinDecode packet nameCapacity out = (-1, out)) := by
  have esphome {capacity port : Nat} {m : Metadata} {message : Bytes}
      (encoded : leMdnsEsphomeEncode capacity port m = some message) (out : Nat × Metadata) :
      leMdnsEsphomeDecode message out = (0, (port, m)) := by
    obtain ⟨rfl, short, positive, small, valid⟩ := encode_esphomeText encoded
    exact leMdnsEsphomeDecode_ok.mpr (parseEsphome_text positive small valid short)
  have sendspin {capacity nameCapacity port : Nat} {name message : Bytes}
      (room : 64 ≤ nameCapacity)
      (encoded : leMdnsSendspinEncode capacity port name = some message) (out : Nat × Bytes) :
      leMdnsSendspinDecode message nameCapacity out = (0, (port, name)) := by
    obtain ⟨rfl, positive, small, valid⟩ := encode_sendspinText encoded
    exact leMdnsSendspinDecode_ok.mpr (parseSendspin_text positive small valid room)
  refine ⟨fun m port valid positive small => ⟨fun capacity room => ?_,
      fun capacity message out encoded => esphome encoded out⟩,
    fun name port valid positive small => ⟨fun capacity room => ?_,
      fun capacity message nameCapacity out room encoded => sendspin room encoded out⟩,
    fun packet out port m accepted => ?_, fun packet nameCapacity out port name accepted => ?_,
    fun packet out refused => ?_, fun packet nameCapacity out refused => ?_⟩
  · rw [leMdnsEsphomeEncode_fits positive small valid room]
    rfl
  · rw [leMdnsSendspinEncode_fits positive small valid room]
    rfl
  · obtain ⟨positive, small, valid⟩ := parseEsphome_valid (leMdnsEsphomeDecode_ok.mp accepted)
    have encoded := leMdnsEsphomeEncode_fits positive small valid (Nat.le_refl _)
    exact ⟨valid, _, encoded, esphome encoded⟩
  · obtain ⟨room, positive, small, valid⟩ :=
      parseSendspin_valid (leMdnsSendspinDecode_ok.mp accepted)
    have encoded := leMdnsSendspinEncode_fits positive small valid (Nat.le_refl _)
    exact ⟨valid, _, encoded, sendspin room encoded⟩
  · rw [leMdnsEsphomeDecode] at refused ⊢
    cases found : parseEsphome packet with
    | none => rfl
    | some parsed =>
        rw [found] at refused
        exact absurd rfl refused
  · rw [leMdnsSendspinDecode] at refused ⊢
    cases found : parseSendspin nameCapacity packet with
    | none => rfl
    | some parsed =>
        rw [found] at refused
        exact absurd rfl refused

end LibreEcho.Mdns
