import LibreEcho.Lib.BigEndian
import Mathlib

/-!
The SHA-256 of the secure hash standard, on messages of whole bytes.

The constants are what the standard derives them from: the first thirty-two bits of the fractional
parts of the square roots and the cube roots of the first primes.
-/
namespace SecureHash

abbrev Bytes := List UInt8
abbrev Word := UInt32

/-! ### Constants -/

def primes : List Nat :=
  (List.range 312).filter Nat.Prime

/-- The first bits of the fractional part of a root of a prime. -/
def fraction (power t : Nat) : Word :=
  .ofNat (Nat.nthRoot power (primes.getD t 0 * 2 ^ (32 * power)))

def initialValue : Vector Word 8 :=
  .ofFn fun i => fraction 2 i

def constant (t : Nat) : Word :=
  fraction 3 t

/-! ### Functions of words -/

def rotateRight (n x : Word) : Word :=
  (x >>> n) ||| (x <<< (32 - n))

def choose (x y z : Word) : Word := (x &&& y) ^^^ (~~~x &&& z)
def majority (x y z : Word) : Word := (x &&& y) ^^^ (x &&& z) ^^^ (y &&& z)
def upperSigma0 (x : Word) : Word := rotateRight 2 x ^^^ rotateRight 13 x ^^^ rotateRight 22 x
def upperSigma1 (x : Word) : Word := rotateRight 6 x ^^^ rotateRight 11 x ^^^ rotateRight 25 x
def lowerSigma0 (x : Word) : Word := rotateRight 7 x ^^^ rotateRight 18 x ^^^ (x >>> 3)
def lowerSigma1 (x : Word) : Word := rotateRight 17 x ^^^ rotateRight 19 x ^^^ (x >>> 10)

/-! ### Preprocessing -/

def zeros (length : Nat) : Nat :=
  (119 - length % 64) % 64

def padded (message : Bytes) : Bytes :=
  message ++ 0x80 :: (List.replicate (zeros message.length) 0 ++
    BigEndian.put 8 (8 * message.length))

/-! ### The computation -/

def word (block : Bytes) (t : Nat) : Word :=
  .ofNat (BigEndian.get ((block.drop (4 * t)).take 4))

def schedule (block : Bytes) (t : Nat) : Word :=
  if t < 16 then word block t
  else lowerSigma1 (schedule block (t - 2)) + schedule block (t - 7) +
    lowerSigma0 (schedule block (t - 15)) + schedule block (t - 16)

theorem schedule_word {t : Nat} (first : t < 16) (block : Bytes) :
    schedule block t = word block t := by
  rw [schedule, if_pos first]

theorem schedule_later (block : Bytes) (t : Nat) : schedule block (t + 16) =
    lowerSigma1 (schedule block (t + 14)) + schedule block (t + 9) +
      lowerSigma0 (schedule block (t + 1)) + schedule block t := by
  rw [schedule, if_neg (by omega)]
  rfl

/-- A round on the working variables `a` to `h`. -/
def round (v : Vector Word 8) (k w : Word) : Vector Word 8 :=
  let t₁ := v.get 7 + upperSigma1 (v.get 4) + choose (v.get 4) (v.get 5) (v.get 6) + k + w
  let t₂ := upperSigma0 (v.get 0) + majority (v.get 0) (v.get 1) (v.get 2)
  #v[t₁ + t₂, v.get 0, v.get 1, v.get 2, v.get 3 + t₁, v.get 4, v.get 5, v.get 6]

def compress (h : Vector Word 8) (block : Bytes) : Vector Word 8 :=
  h.zipWith (· + ·)
    ((List.range 64).foldl (fun v t => round v (constant t) (schedule block t)) h)

def hashBlocks (message : Bytes) (count : Nat) : Vector Word 8 :=
  (List.range count).foldl (fun h i => compress h ((message.drop (64 * i)).take 64)) initialValue

def digest (message : Bytes) : Bytes :=
  let message := padded message
  (hashBlocks message (message.length / 64)).toList.flatMap fun h => BigEndian.put 4 h.toNat

/-! ### Messages that grow -/

theorem hashBlocks_succ (message : Bytes) (count : Nat) :
    hashBlocks message (count + 1) =
      compress (hashBlocks message count) ((message.drop (64 * count)).take 64) := by
  simp only [hashBlocks, List.range_succ, List.foldl_append, List.foldl_cons, List.foldl_nil]

theorem hashBlocks_append {message : Bytes} {count : Nat} (inside : 64 * count ≤ message.length)
    (behind : Bytes) : hashBlocks (message ++ behind) count = hashBlocks message count := by
  induction count with
  | zero => simp only [hashBlocks, List.range_zero, List.foldl_nil]
  | succ count ih =>
      simp only [hashBlocks_succ]
      rw [ih (by omega), List.drop_append_of_le_length (by omega), List.take_append_of_le_length]
      simp only [List.length_drop]
      omega

end SecureHash
