import Mathlib
import LibreEcho.Lib.ByteText

/-!
The packets that announce a service to the supervisor, as mdns_lease.c writes and
reads them.

An ESPHome packet carries nine fields in hexadecimal under their keys, a Sendspin
packet one name. A field value is what a C string of the record holds.
-/
namespace LibreEcho.Mdns
open ByteText

abbrev Bytes := List UInt8

def space : UInt8 := 0x20
def equals : UInt8 := 0x3d
def newline : UInt8 := 0x0a
def colon : UInt8 := 0x3a

def leMdnsEsphomePacketMax : Nat := 1536
def leMdnsSendspinPacketMax : Nat := 192
def leMdnsEsphomeNoise : Bytes := ascii "Noise_NNpsk0_25519_ChaChaPoly_SHA256"
def maxPort : Nat := 65535

inductive Field where
  | version
  | mac
  | platform
  | board
  | network
  | friendlyName
  | apiEncryption
  | projectName
  | projectVersion
deriving DecidableEq, Repr

def fields : List Field :=
  [.version, .mac, .platform, .board, .network, .friendlyName, .apiEncryption, .projectName,
    .projectVersion]

def Field.key : Field → Bytes
  | .version => ascii "version"
  | .mac => ascii "mac"
  | .platform => ascii "platform"
  | .board => ascii "board"
  | .network => ascii "network"
  | .friendlyName => ascii "friendly_name"
  | .apiEncryption => ascii "api_encryption"
  | .projectName => ascii "project_name"
  | .projectVersion => ascii "project_version"

/-- The size of the array in the record, with the final NUL. -/
def Field.size : Field → Nat
  | .version | .board | .projectVersion => 32
  | .mac => 18
  | .platform | .network => 16
  | .friendlyName | .projectName => 64
  | .apiEncryption => 48

structure Metadata where
  version : Bytes
  mac : Bytes
  platform : Bytes
  board : Bytes
  network : Bytes
  friendlyName : Bytes
  apiEncryption : Bytes
  projectName : Bytes
  projectVersion : Bytes
deriving DecidableEq

def Metadata.get (m : Metadata) : Field → Bytes
  | .version => m.version
  | .mac => m.mac
  | .platform => m.platform
  | .board => m.board
  | .network => m.network
  | .friendlyName => m.friendlyName
  | .apiEncryption => m.apiEncryption
  | .projectName => m.projectName
  | .projectVersion => m.projectVersion

def Metadata.set (m : Metadata) (value : Bytes) : Field → Metadata
  | .version => { m with version := value }
  | .mac => { m with mac := value }
  | .platform => { m with platform := value }
  | .board => { m with board := value }
  | .network => { m with network := value }
  | .friendlyName => { m with friendlyName := value }
  | .apiEncryption => { m with apiEncryption := value }
  | .projectName => { m with projectName := value }
  | .projectVersion => { m with projectVersion := value }

/-- `memset(&parsed, 0, sizeof(parsed))` -/
def Metadata.empty : Metadata :=
  ⟨[], [], [], [], [], [], [], [], []⟩

/-! ### Validity -/

/-- First code point bits, continuation bytes and least code point of a lead byte. -/
def utf8Lead (c : UInt8) : Option (Nat × Nat × Nat) :=
  if 0xc2 ≤ c ∧ c ≤ 0xdf then some (c.toNat % 32, 1, 0x80)
  else if 0xe0 ≤ c ∧ c ≤ 0xef then some (c.toNat % 16, 2, 0x800)
  else if 0xf0 ≤ c ∧ c ≤ 0xf4 then some (c.toNat % 8, 3, 0x10000)
  else none

/-- The code point behind `count` continuation bytes, and the text after them. -/
def utf8Tail : Nat → Nat → Bytes → Option (Nat × Bytes)
  | 0, cp, s => some (cp, s)
  | _ + 1, _, [] => none
  | count + 1, cp, c :: s =>
      if c &&& 0xc0 ≠ 0x80 then none else utf8Tail count (cp * 64 + c.toNat % 64) s

def codePointRefused (cp minimum : Nat) : Bool :=
  cp < minimum || 0x10ffff < cp || (0xd800 ≤ cp && cp ≤ 0xdfff) || cp == 0xfffe ||
    cp == 0xffff || (0x80 ≤ cp && cp ≤ 0x9f)

def utf8Loop : Nat → Bytes → Bool
  | _, [] => true
  | 0, _ :: _ => false
  | fuel + 1, c :: s =>
      if c < 0x80 then
        if c < 0x20 ∨ c = 0x7f then false else utf8Loop fuel s
      else
        match utf8Lead c with
        | none => false
        | some (bits, count, minimum) =>
            match utf8Tail count bits s with
            | none => false
            | some (cp, rest) =>
                if codePointRefused cp minimum then false else utf8Loop fuel rest

def utf8Valid (s : Bytes) : Bool :=
  utf8Loop s.length s

def macOctet (mac : Bytes) (i : Nat) : Option Nat :=
  let p := i * (if mac.length = 17 then 3 else 2)
  match hexValue (mac.getD p 0), hexValue (mac.getD (p + 1) 0) with
  | some high, some low =>
      if mac.length = 17 ∧ i < 5 ∧ mac.getD (p + 2) 0 ≠ colon then none
      else some (high * 16 + low)
  | _, _ => none

/-- Twelve digits or six pairs with colons; not all zero, not all ones, no group address. -/
def macValid (mac : Bytes) : Bool :=
  (mac.length == 12 || mac.length == 17) &&
    match (List.range 6).mapM (macOctet mac) with
    | none => false
    | some octets => octets.any (· ≠ 0) && octets.any (· ≠ 255) && octets.headD 0 % 2 == 0

def fieldValid (m : Metadata) (f : Field) : Bool :=
  0 < (m.get f).length && (m.get f).length < f.size && utf8Valid (m.get f)

def metadataValid (m : Metadata) : Bool :=
  fields.all (fieldValid m) &&
    (m.platform == ascii "LibreEcho" || m.platform == ascii "Linux") &&
    m.board == ascii "radar-puffin" &&
    (m.network == ascii "wifi" || m.network == ascii "ethernet") &&
    m.apiEncryption == leMdnsEsphomeNoise && macValid m.mac

example : metadataValid ⟨ascii "1.2", ascii "02:00:00:00:00:0a", ascii "Linux",
    ascii "radar-puffin", ascii "wifi", ascii "Kitchen", leMdnsEsphomeNoise, ascii "libreecho",
    ascii "1"⟩ = true := by
  decide

def sendspinNameValid (name : Bytes) : Bool :=
  0 < name.length && name.length < 64 && utf8Valid name

/-! ### Writing -/

def hexPairs (value : Bytes) : Bytes :=
  value.flatMap fun b => [hexDigit (b.toNat / 16), hexDigit (b.toNat % 16)]

def fieldText (m : Metadata) (f : Field) : Bytes :=
  space :: f.key ++ equals :: hexPairs (m.get f)

/-- `message` holds what is written so far, which is less than the capacity. -/
def encodeFields (capacity : Nat) (m : Metadata) : List Field → Bytes → Option Bytes
  | [], message => some message
  | f :: rest, message =>
      if capacity - message.length ≤ f.key.length + 2 + (m.get f).length * 2 then none
      else encodeFields capacity m rest (message ++ fieldText m f)

def esphomeMark : Bytes := ascii "ESPHOME/1 "

def leMdnsEsphomeEncode (capacity port : Nat) (m : Metadata) : Option Bytes :=
  if capacity = 0 ∨ port = 0 ∨ maxPort < port ∨ metadataValid m = false then none
  else
    let header := esphomeMark ++ decimal port
    if capacity ≤ header.length then none
    else
      match encodeFields capacity m fields header with
      | none => none
      | some message =>
          if capacity < message.length + 2 ∨ leMdnsEsphomePacketMax < message.length + 2 then none
          else some (message ++ [newline])

def sendspinMark : Bytes := ascii "SENDSPIN/1 "
def sendspinKey : Bytes := ascii " name="

def leMdnsSendspinEncode (capacity port : Nat) (name : Bytes) : Option Bytes :=
  if port = 0 ∨ maxPort < port ∨ sendspinNameValid name = false then none
  else
    let capacity := min capacity leMdnsSendspinPacketMax
    let header := sendspinMark ++ decimal port ++ sendspinKey
    if capacity ≤ header.length then none
    else if capacity < header.length + name.length * 2 + 2 then none
    else some (header ++ hexPairs name ++ [newline])

/-! ### Reading -/

/-- The digits of the port, and what follows them; the loop gives up past the last port. -/
def readPort : Nat → Bytes → Option (Nat × Bytes)
  | number, [] => some (number, [])
  | number, b :: rest =>
      if isDigit b then
        if maxPort < number * 10 + (b.toNat - 0x30) then none
        else readPort (number * 10 + (b.toNat - 0x30)) rest
      else some (number, b :: rest)

/-- A byte for every two digits; `zero` tells whether the byte may be zero. -/
def readPairs (zero : Bool) : Bytes → Option Bytes
  | high :: low :: rest =>
      match hexValue high, hexValue low with
      | some h, some l =>
          if ¬zero ∧ h = 0 ∧ l = 0 then none
          else (readPairs zero rest).map (UInt8.ofNat (h * 16 + l) :: ·)
      | _, _ => none
  | _ => some []

def keyByte (b : UInt8) : Bool :=
  b ≠ equals && b ≠ space

def valueByte (b : UInt8) : Bool :=
  b ≠ space

/-- The fields up to the final newline; every round takes a space and more. -/
def readFields : Nat → Bytes → Metadata → List Field → Option (Metadata × List Field)
  | _, [], parsed, seen => some (parsed, seen)
  | 0, _ :: _, _, _ => none
  | fuel + 1, b :: s, parsed, seen =>
      if b ≠ space then none
      else
        match s.dropWhile keyByte with
        | [] => none
        | c :: behind =>
            if c ≠ equals then none
            else
              match fields.find? fun f => f.key == s.takeWhile keyByte with
              | none => none
              | some f =>
                  if f ∈ seen then none
                  else
                    let text := behind.takeWhile valueByte
                    if text.length = 0 ∨ text.length % 2 ≠ 0 ∨ f.size ≤ text.length / 2 then none
                    else
                      match readPairs false text with
                      | none => none
                      | some value =>
                          readFields fuel (behind.dropWhile valueByte) (parsed.set value f)
                            (f :: seen)

def portStart (b : UInt8) : Bool :=
  0x31 ≤ b && b ≤ 0x39

def parseEsphome (message : Bytes) : Option (Nat × Metadata) :=
  if message.length < 12 ∨ leMdnsEsphomePacketMax ≤ message.length ∨
      message.take 10 ≠ esphomeMark ∨ message.getLast? ≠ some newline ∨ 0 ∈ message ∨
      portStart (message.getD 10 0) = false then none
  else
    match readPort 0 (message.drop 10) with
    | none => none
    | some (port, behind) =>
        match readFields behind.length behind.dropLast .empty [] with
        | none => none
        | some (parsed, seen) =>
            if (∀ f ∈ fields, f ∈ seen) ∧ metadataValid parsed = true then some (port, parsed)
            else none

def strlen (s : Bytes) : Nat :=
  (s.takeWhile (· ≠ 0)).length

def parseSendspin (nameCapacity : Nat) (message : Bytes) : Option (Nat × Bytes) :=
  if nameCapacity < 64 ∨ message.length < 20 ∨ leMdnsSendspinPacketMax ≤ message.length ∨
      message.take 11 ≠ sendspinMark ∨ message.getLast? ≠ some newline ∨ 0 ∈ message ∨
      portStart (message.getD 11 0) = false then none
  else
    match readPort 0 (message.drop 11) with
    | none => none
    | some (port, behind) =>
        if behind.length < 6 ∨ behind.take 6 ≠ sendspinKey then none
        else
          let text := (behind.drop 6).dropLast
          if text.length = 0 ∨ text.length % 2 ≠ 0 ∨ 64 ≤ text.length / 2 then none
          else
            match readPairs true text with
            | none => none
            | some name =>
                if strlen name ≠ name.length ∨ sendspinNameValid name = false then none
                else some (port, name)

/-- The result and the caller's outputs, which are written when everything was accepted. -/
def leMdnsEsphomeDecode (message : Bytes) (out : Nat × Metadata) : Int × (Nat × Metadata) :=
  match parseEsphome message with
  | none => (-1, out)
  | some parsed => (0, parsed)

def leMdnsSendspinDecode (message : Bytes) (nameCapacity : Nat) (out : Nat × Bytes) :
    Int × (Nat × Bytes) :=
  match parseSendspin nameCapacity message with
  | none => (-1, out)
  | some parsed => (0, parsed)

end LibreEcho.Mdns

/-!
The parts of a packet are read as they are written: texts, pairs of digits, the
port and the fields.
-/
namespace LibreEcho.Mdns
open ByteText

/-! ### Texts -/

theorem utf8Tail_split {count cp cp' : Nat} {s rest : Bytes}
    (found : utf8Tail count cp s = some (cp', rest)) : ∃ front, s = front ++ rest ∧ 0 ∉ front := by
  induction count generalizing cp s with
  | zero =>
      cases found
      exact ⟨[], rfl, by simp⟩
  | succ count ih =>
      cases s with
      | nil => cases found
      | cons c s =>
          rw [utf8Tail] at found
          split at found
          · cases found
          · rename_i marked
            obtain ⟨front, rfl, free⟩ := ih found
            refine ⟨c :: front, rfl, ?_⟩
            rw [List.mem_cons, not_or]
            refine ⟨fun zero => marked ?_, free⟩
            rw [← zero]
            decide

theorem utf8Loop_noNul {fuel : Nat} {s : Bytes} (valid : utf8Loop fuel s = true) : 0 ∉ s := by
  induction fuel generalizing s with
  | zero =>
      cases s with
      | nil => simp
      | cons c s => cases valid
  | succ fuel ih =>
      cases s with
      | nil => simp
      | cons c s =>
          rw [List.mem_cons, not_or]
          rw [utf8Loop] at valid
          split at valid
          · split at valid
            · cases valid
            · rename_i printable
              refine ⟨fun zero => printable (.inl ?_), ih valid⟩
              rw [← zero]
              decide
          · rename_i high
            have lead : (0 : UInt8) ≠ c := by
              intro zero
              rw [← zero] at high
              exact high (by decide)
            cases first : utf8Lead c with
            | none =>
                rw [first] at valid
                cases valid
            | some found =>
                obtain ⟨bits, count, minimum⟩ := found
                rw [first] at valid
                cases tail : utf8Tail count bits s with
                | none =>
                    simp only [tail] at valid
                    cases valid
                | some found =>
                    obtain ⟨cp, rest⟩ := found
                    simp only [tail] at valid
                    split at valid
                    · cases valid
                    · obtain ⟨front, rfl, free⟩ := utf8Tail_split tail
                      rw [List.mem_append, not_or]
                      exact ⟨lead, free, ih valid⟩

theorem utf8Valid_noNul {s : Bytes} (valid : utf8Valid s = true) : 0 ∉ s :=
  utf8Loop_noNul valid

theorem strlen_eq {s : Bytes} (free : 0 ∉ s) : strlen s = s.length := by
  rw [strlen, List.takeWhile_eq_self_iff.mpr]
  intro b member
  rw [decide_eq_true_iff]
  exact fun zero => free (zero ▸ member)

/-! ### Pairs of digits -/

theorem hexDigit_plain {d : Nat} (digit : d < 16) :
    hexDigit d ≠ 0 ∧ hexDigit d ≠ space := by
  have all : ∀ d : Fin 16, hexDigit d ≠ 0 ∧ hexDigit d ≠ space := by decide
  exact all ⟨d, digit⟩

theorem mem_hexPairs {value : Bytes} {b : UInt8} (member : b ∈ hexPairs value) :
    b ≠ 0 ∧ b ≠ space := by
  obtain ⟨c, -, pair⟩ := List.mem_flatMap.mp member
  have bound := c.toNat_lt
  rcases List.mem_cons.mp pair with rfl | second
  · exact hexDigit_plain (by omega)
  · obtain rfl := List.mem_singleton.mp second
    exact hexDigit_plain (by omega)

theorem length_hexPairs (value : Bytes) : (hexPairs value).length = value.length * 2 := by
  induction value with
  | nil => rfl
  | cons b value ih =>
      have split : hexPairs (b :: value) =
          [hexDigit (b.toNat / 16), hexDigit (b.toNat % 16)] ++ hexPairs value :=
        List.flatMap_cons
      rw [split, List.length_append, ih]
      simp only [List.length_cons, List.length_nil]
      omega

theorem readPairs_hexPairs {zero : Bool} {value : Bytes} (plain : zero = true ∨ 0 ∉ value) :
    readPairs zero (hexPairs value) = some value := by
  induction value with
  | nil => rfl
  | cons b value ih =>
      have bound := b.toNat_lt
      have split : hexPairs (b :: value) =
          hexDigit (b.toNat / 16) :: hexDigit (b.toNat % 16) :: hexPairs value :=
        List.flatMap_cons
      have later : zero = true ∨ 0 ∉ value :=
        plain.imp_right fun free member => free (List.mem_cons_of_mem b member)
      have kept : ¬(¬zero = true ∧ b.toNat / 16 = 0 ∧ b.toNat % 16 = 0) := by
        rintro ⟨counted, high, low⟩
        rcases plain with allowed | free
        · exact counted allowed
        · have null : b.toNat = (0 : UInt8).toNat := by
            change b.toNat = 0
            omega
          exact free (UInt8.toNat_inj.mp null ▸ List.mem_cons_self)
      have whole : b.toNat / 16 * 16 + b.toNat % 16 = b.toNat := by omega
      rw [split, readPairs, hexValue_hexDigit (by omega), hexValue_hexDigit (by omega)]
      simp only
      rw [if_neg kept, ih later, whole, UInt8.ofNat_toNat]
      rfl

/-! ### The port -/

/-- The text that follows a number does not go on with a digit. -/
def DigitFree (rest : Bytes) : Prop :=
  ∀ b ∈ rest.head?, isDigit b = false

def portValue (number : Nat) (digits : Bytes) : Nat :=
  digits.foldl (fun v b => v * 10 + (b.toNat - 0x30)) number

theorem le_portValue (number : Nat) (digits : Bytes) : number ≤ portValue number digits := by
  induction digits generalizing number with
  | nil => exact Nat.le_refl _
  | cons b digits ih => exact Nat.le_trans (by omega) (ih (number * 10 + (b.toNat - 0x30)))

theorem readPort_digits {number : Nat} {digits rest : Bytes}
    (all : ∀ b ∈ digits, isDigit b = true) (small : portValue number digits ≤ maxPort)
    (stop : DigitFree rest) :
    readPort number (digits ++ rest) = some (portValue number digits, rest) := by
  induction digits generalizing number with
  | nil =>
      cases rest with
      | nil => rfl
      | cons b rest =>
          have last : isDigit b = false := stop b rfl
          rw [List.nil_append, readPort, if_neg (by rw [last]; decide)]
          rfl
  | cons b digits ih =>
      have bound := le_portValue (number * 10 + (b.toNat - 0x30)) digits
      have same : portValue number (b :: digits) =
          portValue (number * 10 + (b.toNat - 0x30)) digits := rfl
      rw [same] at small ⊢
      rw [List.cons_append, readPort, if_pos (all b List.mem_cons_self), if_neg (by omega)]
      exact ih (fun c member => all c (List.mem_cons_of_mem b member)) small

theorem portValue_decimal (n : Nat) : portValue 0 (decimal n) = n := by
  have digit : ∀ d : Fin 10, (UInt8.ofNat (Nat.digitChar d).toNat).toNat - 0x30 = d := by decide
  induction n using Nat.strongRecOn with
  | ind n ih =>
      by_cases small : n < 10
      · rw [decimal, Nat.toDigits_of_lt_base small]
        exact (Nat.zero_add _).trans (digit ⟨n, small⟩)
      · have last := digit ⟨n % 10, Nat.mod_lt _ (by decide)⟩
        rw [decimal, Nat.toDigits_of_base_le (by decide) (by omega), List.map_append, portValue,
          List.foldl_append]
        have front : portValue 0 (decimal (n / 10)) = n / 10 := ih (n / 10) (by omega)
        rw [portValue, decimal] at front
        rw [front]
        simp only [List.map_cons, List.map_nil, List.foldl_cons, List.foldl_nil] at last ⊢
        omega

theorem readPort_decimal {n : Nat} (small : n ≤ maxPort) {rest : Bytes} (stop : DigitFree rest) :
    readPort 0 (decimal n ++ rest) = some (n, rest) := by
  have read := @readPort_digits 0 (decimal n) rest (fun _ => decimal_isDigit)
    (by rw [portValue_decimal]; exact small) stop
  rw [portValue_decimal] at read
  exact read

theorem readPort_bounds {number port : Nat} {s rest : Bytes} (start : number ≤ maxPort)
    (found : readPort number s = some (port, rest)) : number ≤ port ∧ port ≤ maxPort := by
  induction s generalizing number with
  | nil =>
      cases found
      exact ⟨Nat.le_refl _, start⟩
  | cons b s ih =>
      rw [readPort] at found
      split at found
      · split at found
        · cases found
        · have later := ih (by omega) found
          omega
      · cases found
        exact ⟨Nat.le_refl _, start⟩

/-! ### The fields -/

theorem mem_fields (f : Field) : f ∈ fields := by
  cases f <;> decide

theorem key_plain (f : Field) : ∀ b ∈ f.key, keyByte b = true ∧ b ≠ 0 := by
  cases f <;> decide +kernel

theorem find_key (f : Field) : fields.find? (fun g => g.key == f.key) = some f := by
  cases f <;> decide

theorem set_fields (m parsed : Metadata) :
    fields.foldl (fun p f => p.set (m.get f) f) parsed = m := by
  simp only [fields, List.foldl_cons, List.foldl_nil, Metadata.set, Metadata.get]

theorem length_fieldText (m : Metadata) (f : Field) :
    (fieldText m f).length = f.key.length + 2 + (m.get f).length * 2 := by
  rw [fieldText, List.cons_append, List.length_cons, List.length_append, List.length_cons,
    length_hexPairs]
  omega

/-- What is behind a field starts with a space, if there is anything. -/
def SpaceFirst (rest : Bytes) : Prop :=
  ∀ b ∈ rest.head?, b = space

theorem spaceFirst_texts (m : Metadata) (fs : List Field) :
    SpaceFirst (fs.flatMap (fieldText m)) := by
  cases fs with
  | nil =>
      intro b member
      cases member
  | cons f fs =>
      intro b member
      rw [List.flatMap_cons] at member
      exact (Option.some.inj member).symm

theorem cut_value {m : Metadata} {f : Field} {rest : Bytes} (stop : SpaceFirst rest) :
    (hexPairs (m.get f) ++ rest).takeWhile valueByte = hexPairs (m.get f) ∧
      (hexPairs (m.get f) ++ rest).dropWhile valueByte = rest := by
  have all : ∀ b ∈ hexPairs (m.get f), valueByte b = true := fun b member =>
    decide_eq_true (mem_hexPairs member).2
  rw [List.takeWhile_append_of_pos all, List.dropWhile_append_of_pos all]
  cases rest with
  | nil => exact ⟨List.append_nil _, rfl⟩
  | cons b rest =>
      have first : ¬valueByte b = true := by
        rw [stop b rfl]
        decide
      rw [List.takeWhile_cons_of_neg first, List.dropWhile_cons_of_neg first]
      exact ⟨List.append_nil _, rfl⟩

theorem cut_key (f : Field) (rest : Bytes) :
    (f.key ++ equals :: rest).takeWhile keyByte = f.key ∧
      (f.key ++ equals :: rest).dropWhile keyByte = equals :: rest := by
  have all : ∀ b ∈ f.key, keyByte b = true := fun b member => (key_plain f b member).1
  have stop : ¬keyByte equals = true := by decide
  rw [List.takeWhile_append_of_pos all, List.dropWhile_append_of_pos all,
    List.takeWhile_cons_of_neg stop, List.dropWhile_cons_of_neg stop]
  exact ⟨List.append_nil _, rfl⟩

theorem readFields_one {m parsed : Metadata} {f : Field} {seen : List Field} {fuel : Nat}
    {rest : Bytes} (stop : SpaceFirst rest) (fresh : f ∉ seen) (some : 0 < (m.get f).length)
    (fits : (m.get f).length < f.size) (plain : 0 ∉ m.get f) :
    readFields (fuel + 1) (fieldText m f ++ rest) parsed seen =
      readFields fuel rest (parsed.set (m.get f) f) (f :: seen) := by
  have text : fieldText m f ++ rest =
      space :: (f.key ++ equals :: (hexPairs (m.get f) ++ rest)) := by
    simp only [fieldText, List.cons_append, List.append_assoc]
  have size : ¬((hexPairs (m.get f)).length = 0 ∨ (hexPairs (m.get f)).length % 2 ≠ 0 ∨
      f.size ≤ (hexPairs (m.get f)).length / 2) := by
    rw [length_hexPairs]
    omega
  obtain ⟨key, behind⟩ := cut_key f (hexPairs (m.get f) ++ rest)
  obtain ⟨value, after⟩ := @cut_value m f rest stop
  rw [text, readFields, if_neg (by simp), key, behind]
  simp only [find_key, value, after]
  rw [if_neg (by simp), if_neg fresh, if_neg size, readPairs_hexPairs (.inr plain)]

theorem readFields_texts {m : Metadata} {fs : List Field} (distinct : fs.Nodup)
    (valid : ∀ f ∈ fs, 0 < (m.get f).length ∧ (m.get f).length < f.size ∧ 0 ∉ m.get f)
    {parsed : Metadata} {seen : List Field} (fresh : ∀ f ∈ fs, f ∉ seen) {fuel : Nat}
    (enough : fs.length ≤ fuel) :
    readFields fuel (fs.flatMap (fieldText m)) parsed seen =
      some (fs.foldl (fun p f => p.set (m.get f) f) parsed, fs.reverse ++ seen) := by
  induction fs generalizing parsed seen fuel with
  | nil => cases fuel <;> rfl
  | cons f fs ih =>
      obtain ⟨fuel, rfl⟩ : ∃ n, fuel = n + 1 := ⟨fuel - 1, by simp at enough; omega⟩
      obtain ⟨here, there⟩ := List.nodup_cons.mp distinct
      obtain ⟨some, fits, plain⟩ := valid f List.mem_cons_self
      have later := @ih there (fun g member => valid g (List.mem_cons_of_mem f member))
        (parsed.set (m.get f) f) (f :: seen)
        (fun g member => by
          rw [List.mem_cons, not_or]
          exact ⟨fun same => here (same ▸ member), fresh g (List.mem_cons_of_mem f member)⟩)
        fuel (Nat.le_of_succ_le_succ enough)
      rw [List.flatMap_cons, readFields_one (spaceFirst_texts m fs) (fresh f List.mem_cons_self)
        some fits plain, later, List.reverse_cons, List.append_assoc]
      rfl

end LibreEcho.Mdns
