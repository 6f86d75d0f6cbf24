import LibreEcho.Auth.Users
import LibreEcho.Lib.SecureHash
import Mathlib

/-!
The SHA-256 of `auth.c` against the standard.

`sha256_update` copies as much as the block takes and works in the block when it is full;
`sha256_final` looks for a full block before each zero it appends. Both are followed here as they
stand; the model of the accounts takes its bytes one by one and comes to the same context.
-/
namespace LibreEcho.Auth
open SecureHash (Word)

abbrev Bytes := List UInt8

namespace Buffered

/-- `memcpy` into the block from `used` on. -/
def copyIn (block : Vector UInt8 64) (used : Nat) : Bytes → Vector UInt8 64
  | [] => block
  | byte :: data => copyIn (block.setIfInBounds used byte) (used + 1) data

def flush (ctx : Sha256) : Sha256 :=
  if ctx.used = 64 then { ctx with h := sha256Block ctx.h ctx.block, used := 0 } else ctx

def take (ctx : Sha256) (data : Bytes) : Sha256 :=
  { ctx with
    block := copyIn ctx.block ctx.used data
    used := ctx.used + data.length
    bits := ctx.bits + UInt64.ofNat data.length * 8 }

def updateLoop : Nat → Sha256 → Bytes → Sha256
  | 0, ctx, _ => ctx
  | passes + 1, ctx, data =>
      if data = [] then ctx
      else
        let n := min (64 - ctx.used) data.length
        updateLoop passes (flush (take ctx (data.take n))) (data.drop n)

def sha256Update (ctx : Sha256) (data : Bytes) : Sha256 :=
  updateLoop data.length ctx data

/-- `ctx->block[ctx->used++] = byte` -/
def append (ctx : Sha256) (byte : UInt8) : Sha256 :=
  { ctx with block := ctx.block.setIfInBounds ctx.used byte, used := ctx.used + 1 }

def padLoop : Nat → Sha256 → Sha256
  | 0, ctx => ctx
  | passes + 1, ctx => if ctx.used = 56 then ctx else padLoop passes (append (flush ctx) 0)

def sha256Final (ctx : Sha256) : Vector UInt8 32 :=
  let bits := ctx.bits
  let padded := padLoop 64 (append ctx 0x80)
  let length := (List.range 8).map fun i => (bits >>> (56 - UInt64.ofNat (i * 8))).toUInt8
  let h := sha256Block padded.h (copyIn padded.block 56 length)
  Vector.ofFn fun i : Fin 32 => (h.toArray.getD (i / 4) 0 >>> (24 - UInt32.ofNat (i % 4 * 8))).toUInt8

end Buffered

/-! ### The functions of words -/

/-- A number below 324 is tested for primality by what divides it below 18. -/
theorem prime_iff {n : Nat} (small : n < 312) :
    n.Prime ↔ 2 ≤ n ∧ ∀ d ∈ List.range 18, 2 ≤ d → d ∣ n → d = n := by
  constructor
  · intro prime
    refine ⟨prime.two_le, fun d _ above divides => ?_⟩
    exact (prime.eq_one_or_self_of_dvd d divides).resolve_left (by omega)
  · rintro ⟨above, only⟩
    have least := Nat.minFac_prime (show n ≠ 1 by omega)
    by_contra composite
    have square := Nat.minFac_sq_le_self (by omega) composite
    have below : n.minFac < 18 := by
      by_contra large
      have : 18 ^ 2 ≤ n.minFac ^ 2 := Nat.pow_le_pow_left (Nat.le_of_not_lt large) 2
      omega
    rw [only _ (List.mem_range.mpr below) least.two_le n.minFac_dvd] at least
    exact composite least

theorem primes_eq : SecureHash.primes =
    [2, 3, 5, 7, 11, 13, 17, 19, 23, 29, 31, 37, 41, 43, 47, 53, 59, 61, 67, 71, 73, 79, 83,
      89, 97, 101, 103, 107, 109, 113, 127, 131, 137, 139, 149, 151, 157, 163, 167, 173, 179,
      181, 191, 193, 197, 199, 211, 223, 227, 229, 233, 239, 241, 251, 257, 263, 269, 271, 277,
      281, 283, 293, 307, 311] := by
  have tested : SecureHash.primes = (List.range 312).filter fun n =>
      2 ≤ n ∧ ∀ d ∈ List.range 18, 2 ≤ d → d ∣ n → d = n := by
    refine List.filter_congr fun n member => ?_
    exact decide_eq_decide.mpr (prime_iff (List.mem_range.mp member))
  rw [tested]
  decide +kernel

theorem roundConstants_eq : roundConstants = (List.range 64).map SecureHash.constant := by
  unfold SecureHash.constant SecureHash.fraction
  rw [primes_eq]
  decide +kernel

theorem sha256Init_h : sha256Init.h = SecureHash.initialValue := by
  unfold SecureHash.initialValue SecureHash.fraction
  rw [primes_eq]
  decide +kernel

theorem sha256Round_eq (v : Vector Word 8) (k w : Word) :
    sha256Round v k w = SecureHash.round v k w := rfl

theorem word_bytes (a b c d : UInt8) :
    (a.toUInt32 <<< 24) ||| (b.toUInt32 <<< 16) ||| (c.toUInt32 <<< 8) ||| d.toUInt32 =
      UInt32.ofNat (BigEndian.get [a, b, c, d]) := by
  have := a.toNat_lt
  have := b.toNat_lt
  have := c.toNat_lt
  have nested : a.toNat <<< 24 ||| b.toNat <<< 16 ||| c.toNat <<< 8 ||| d.toNat =
      ((a.toNat <<< 8 ||| b.toNat) <<< 8 ||| c.toNat) <<< 8 ||| d.toNat := by
    simp only [Nat.shiftLeft_or_distrib, ← Nat.shiftLeft_add]
  have fits : BigEndian.get [a, b, c, d] < 2 ^ 32 := by simpa using BigEndian.get_lt [a, b, c, d]
  have value : BigEndian.get [a, b, c, d] =
      ((a.toNat * 256 + b.toNat) * 256 + c.toNat) * 256 + d.toNat := by simp [BigEndian.get]
  apply UInt32.toNat_inj.mp
  rw [UInt32.toNat_ofNat', Nat.mod_eq_of_lt fits, value]
  simp only [UInt32.toNat_or, UInt32.toNat_shiftLeft, UInt8.toNat_toUInt32]
  simp only [BigEndian.shift_or] at nested
  rw [← nested]
  simp only [Nat.shiftLeft_eq, UInt32.reduceToNat, Nat.reduceMod, Nat.reducePow]
  rw [Nat.mod_eq_of_lt (by omega), Nat.mod_eq_of_lt (by omega), Nat.mod_eq_of_lt (by omega)]

theorem firstWord (block : Vector UInt8 64) {i : Nat} (inside : i < 16) :
    ((block.toArray.getD (i * 4) 0).toUInt32 <<< 24) |||
        ((block.toArray.getD (i * 4 + 1) 0).toUInt32 <<< 16) |||
        ((block.toArray.getD (i * 4 + 2) 0).toUInt32 <<< 8) |||
        (block.toArray.getD (i * 4 + 3) 0).toUInt32 = SecureHash.word block.toList i := by
  have size : block.toList.length = 64 := block.length_toList
  have byte {j : Nat} (low : j < 64) :
      block.toArray.getD j 0 = block.toList.get ⟨j, Nat.lt_of_lt_of_eq low size.symm⟩ := by
    rw [Array.getD, dif_pos (Nat.lt_of_lt_of_eq low block.size_toArray.symm)]
    rfl
  have four : (block.toList.drop (4 * i)).take 4 =
      [block.toArray.getD (i * 4) 0, block.toArray.getD (i * 4 + 1) 0,
        block.toArray.getD (i * 4 + 2) 0, block.toArray.getD (i * 4 + 3) 0] := by
    rw [byte (by omega), byte (by omega), byte (by omega), byte (by omega), Nat.mul_comm 4 i,
      List.drop_eq_getElem_cons (by omega), List.drop_eq_getElem_cons (by omega),
      List.drop_eq_getElem_cons (by omega), List.drop_eq_getElem_cons (by omega)]
    rfl
  rw [word_bytes, SecureHash.word, four]

def pushWord (w : Array Word) (n : Nat) : Array Word :=
  w.push (w.getD n 0 + SecureHash.lowerSigma0 (w.getD (n + 1) 0) + w.getD (n + 9) 0 +
    SecureHash.lowerSigma1 (w.getD (n + 14) 0))

theorem pushWord_schedule (block : Bytes) (n : Nat) :
    pushWord ((List.range (n + 16)).map (SecureHash.schedule block)).toArray n =
      ((List.range (n + 17)).map (SecureHash.schedule block)).toArray := by
  have word {i : Nat} (inside : i < n + 16) :
      (((List.range (n + 16)).map (SecureHash.schedule block)).toArray).getD i 0 =
        SecureHash.schedule block i := by
    simp [inside]
  rw [pushWord, word (by omega), word (by omega), word (by omega), word (by omega)]
  have next : SecureHash.schedule block n + SecureHash.lowerSigma0 (SecureHash.schedule block (n + 1)) +
      SecureHash.schedule block (n + 9) +
      SecureHash.lowerSigma1 (SecureHash.schedule block (n + 14)) =
        SecureHash.schedule block (n + 16) := by
    rw [SecureHash.schedule_later]
    ac_rfl
  rw [next, List.push_toArray, @List.range_succ (n + 16), List.map_append, List.map_singleton]

theorem sha256Words_eq (block : Vector UInt8 64) :
    (sha256Words block).toList = (List.range 64).map (SecureHash.schedule block.toList) := by
  have first : ((Array.range 16).map fun i =>
      ((block.toArray.getD (i * 4) 0).toUInt32 <<< 24) |||
        ((block.toArray.getD (i * 4 + 1) 0).toUInt32 <<< 16) |||
        ((block.toArray.getD (i * 4 + 2) 0).toUInt32 <<< 8) |||
        (block.toArray.getD (i * 4 + 3) 0).toUInt32) =
      ((List.range 16).map (SecureHash.schedule block.toList)).toArray := by
    apply Array.toList_inj.mp
    rw [Array.toList_map, Array.toList_range, List.toList_toArray]
    apply List.map_congr_left
    intro i inside
    rw [firstWord block (List.mem_range.mp inside),
      SecureHash.schedule_word (List.mem_range.mp inside)]
  have later (n : Nat) :
      (List.range n).foldl pushWord ((List.range 16).map (SecureHash.schedule block.toList)).toArray =
        ((List.range (n + 16)).map (SecureHash.schedule block.toList)).toArray := by
    induction n with
    | zero => rw [List.range_zero, List.foldl_nil, Nat.zero_add]
    | succ n ih =>
        rw [@List.range_succ n, List.foldl_append, ih, List.foldl_cons, List.foldl_nil,
          pushWord_schedule]
  have step : (fun (w : Array Word) (n : Nat) =>
      w.push (w.getD n 0 + (rotr (w.getD (n + 1) 0) 7 ^^^ rotr (w.getD (n + 1) 0) 18 ^^^
        (w.getD (n + 1) 0 >>> 3)) + w.getD (n + 9) 0 + (rotr (w.getD (n + 14) 0) 17 ^^^
          rotr (w.getD (n + 14) 0) 19 ^^^ (w.getD (n + 14) 0 >>> 10)))) = pushWord := rfl
  simp only [sha256Words, Nat.reduceSubDiff, Nat.add_sub_cancel, first, step, later]

theorem sha256Block_eq (h : Vector Word 8) (block : Vector UInt8 64) :
    sha256Block h block = SecureHash.compress h block.toList := by
  rw [sha256Block, roundConstants_eq, sha256Words_eq, List.zip_map', List.foldl_map,
    SecureHash.compress]
  simp only [sha256Round_eq]

/-! ### A block being filled -/

/-- The context has taken these bytes: so many blocks are worked in, the rest is in the block. -/
structure Filling (ctx : Sha256) (count : Nat) (seen : Bytes) : Prop where
  length : seen.length = 64 * count + ctx.used
  room : ctx.used ≤ 64
  value : ctx.h = SecureHash.hashBlocks seen count
  bytes : ctx.block.toList.take ctx.used = seen.drop (64 * count)

section Filling
variable {ctx : Sha256} {count : Nat} {seen : Bytes}

theorem Filling.init : Filling sha256Init 0 [] where
  length := rfl
  room := by decide
  value := sha256Init_h
  bytes := rfl

theorem Filling.withBits (filling : Filling ctx count seen) (bits : UInt64) :
    Filling { ctx with bits := bits } count seen :=
  ⟨filling.length, filling.room, filling.value, filling.bytes⟩

theorem Filling.append (filling : Filling ctx count seen) (room : ctx.used < 64) (byte : UInt8) :
    Filling (Buffered.append ctx byte) count (seen ++ [byte]) where
  length := by
    have := filling.length
    simp only [List.length_append, List.length_singleton, Buffered.append]
    omega
  room := room
  value := by
    have := filling.length
    rw [SecureHash.hashBlocks_append (by omega)]
    exact filling.value
  bytes := by
    have := filling.length
    have size : ctx.used < ctx.block.toList.length := by
      rw [Vector.length_toList]
      exact room
    simp only [Buffered.append, Vector.toList_setIfInBounds]
    rw [List.take_succ_eq_append_getElem (by simpa using size), List.take_set_of_le (Nat.le_refl _),
      List.getElem_set_self, filling.bytes, List.drop_append_of_le_length (by omega)]

theorem Filling.copyIn (filling : Filling ctx count seen) (data : Bytes)
    (room : ctx.used + data.length ≤ 64) :
    Filling { ctx with
      block := Buffered.copyIn ctx.block ctx.used data
      used := ctx.used + data.length } count (seen ++ data) := by
  induction data generalizing ctx seen with
  | nil => simpa [Buffered.copyIn] using filling
  | cons byte data ih =>
      rw [List.length_cons] at room
      have next := ih (filling.append (by omega) byte) (by simp only [Buffered.append]; omega)
      simp only [Buffered.append, List.append_assoc, List.singleton_append] at next
      rw [Buffered.copyIn, List.length_cons, Nat.add_comm data.length, ← Nat.add_assoc]
      exact next

theorem Filling.worked (filling : Filling ctx count seen) (full : ctx.used = 64) :
    sha256Block ctx.h ctx.block = SecureHash.hashBlocks seen (count + 1) := by
  have length := filling.length
  have bytes := filling.bytes
  have whole : ctx.block.toList.length ≤ 64 := Nat.le_of_eq ctx.block.length_toList
  rw [full] at bytes length
  rw [List.take_of_length_le whole] at bytes
  rw [sha256Block_eq, SecureHash.hashBlocks_succ, filling.value, bytes,
    @List.take_of_length_le _ 64 (seen.drop (64 * count)) (by rw [List.length_drop]; omega)]

theorem Filling.flush (filling : Filling ctx count seen) :
    ∃ count, Filling (Buffered.flush ctx) count seen ∧ (Buffered.flush ctx).used =
      ctx.used % 64 := by
  have room := filling.room
  by_cases full : ctx.used = 64
  · refine ⟨count + 1, ?_, ?_⟩
    · have length := filling.length
      rw [Buffered.flush, if_pos full]
      refine ⟨?_, Nat.zero_le _, filling.worked full, ?_⟩
      · simp only
        omega
      · rw [List.take_zero, List.drop_eq_nil_of_le (by omega)]
    · rw [Buffered.flush, if_pos full, full]
  · refine ⟨count, ?_, ?_⟩
    · rw [Buffered.flush, if_neg full]
      exact filling
    · rw [Buffered.flush, if_neg full, Nat.mod_eq_of_lt (by omega)]

end Filling

/-! ### Updates -/

/-- Between two calls: the block has room, and the bits are counted. -/
structure Absorbed (ctx : Sha256) (seen : Bytes) : Prop where
  filling : ∃ count, Filling ctx count seen
  room : ctx.used < 64
  bits : ctx.bits = UInt64.ofNat (8 * seen.length)

section Absorbed
variable {ctx : Sha256} {seen : Bytes}

theorem Absorbed.init : Absorbed sha256Init [] :=
  ⟨⟨0, .init⟩, by decide, rfl⟩

theorem Absorbed.pass (absorbed : Absorbed ctx seen) (data : Bytes)
    (room : ctx.used + data.length ≤ 64) :
    Absorbed (Buffered.flush (Buffered.take ctx data)) (seen ++ data) := by
  obtain ⟨count, filling⟩ := absorbed.filling
  have taken : Filling (Buffered.take ctx data) count (seen ++ data) :=
    (filling.copyIn data room).withBits _
  obtain ⟨count', flushed, used⟩ := taken.flush
  have bits : (Buffered.flush (Buffered.take ctx data)).bits =
      ctx.bits + UInt64.ofNat data.length * 8 := by
    rw [Buffered.flush]
    split <;> rfl
  refine ⟨⟨count', flushed⟩, ?_, ?_⟩
  · rw [used]
    exact Nat.mod_lt _ (by decide)
  · rw [bits, absorbed.bits, List.length_append, Nat.mul_add, UInt64.ofNat_add,
      UInt64.ofNat_mul 8 data.length, UInt64.mul_comm (.ofNat 8)]
    rfl

theorem Absorbed.updateLoop (absorbed : Absorbed ctx seen) {passes : Nat} {data : Bytes}
    (enough : data.length ≤ passes) :
    Absorbed (Buffered.updateLoop passes ctx data) (seen ++ data) := by
  induction passes generalizing ctx seen data with
  | zero =>
      have none : data = [] := List.eq_nil_of_length_eq_zero (Nat.le_zero.mp enough)
      rw [none, List.append_nil]
      exact absorbed
  | succ passes ih =>
      rw [Buffered.updateLoop]
      split
      case isTrue none =>
        rw [none, List.append_nil]
        exact absorbed
      case isFalse some =>
        have filled : 0 < data.length := List.length_pos_of_ne_nil some
        have room := absorbed.room
        have passed := absorbed.pass (data.take (min (64 - ctx.used) data.length))
          (by rw [List.length_take]; omega)
        have shorter : (data.drop (min (64 - ctx.used) data.length)).length ≤ passes := by
          rw [List.length_drop]
          omega
        have rest := ih passed shorter
        rwa [List.append_assoc, List.take_append_drop] at rest

theorem Absorbed.updates (absorbed : Absorbed ctx seen) (pieces : List Bytes) :
    Absorbed (pieces.foldl Buffered.sha256Update ctx) (seen ++ pieces.flatten) := by
  induction pieces generalizing ctx seen with
  | nil =>
      rw [List.flatten_nil, List.append_nil]
      exact absorbed
  | cons piece pieces ih =>
      rw [List.foldl_cons, List.flatten_cons, ← List.append_assoc]
      exact ih (absorbed.updateLoop (Nat.le_refl _))

end Absorbed

/-! ### The end of a message -/

theorem padLoop_filling {passes z : Nat} {ctx : Sha256} {count : Nat} {seen : Bytes}
    (filling : Filling ctx count seen) (enough : z ≤ passes) (few : z < 64)
    (exact : (ctx.used + z) % 64 = 56) :
    ∃ count, Filling (Buffered.padLoop passes ctx) count (seen ++ List.replicate z 0) ∧
      (Buffered.padLoop passes ctx).used = 56 := by
  have room := filling.room
  induction z generalizing passes ctx count seen with
  | zero =>
      have done : ctx.used = 56 := by omega
      have stays : Buffered.padLoop passes ctx = ctx := by
        cases passes with
        | zero => rfl
        | succ passes => rw [Buffered.padLoop, if_pos done]
      rw [stays, List.replicate_zero, List.append_nil]
      exact ⟨count, filling, done⟩
  | succ z ih =>
      obtain ⟨passes, rfl⟩ : ∃ more, passes = more + 1 := ⟨passes - 1, by omega⟩
      obtain ⟨count', flushed, used⟩ := filling.flush
      have appended := flushed.append (by rw [used]; exact Nat.mod_lt _ (by decide)) 0
      rw [Buffered.padLoop, if_neg (by omega), List.replicate_succ, ← List.singleton_append,
        ← List.append_assoc]
      refine ih appended (by omega) (by omega) ?_ appended.room
      simp only [Buffered.append, used]
      omega

theorem lengthBytes (n : Nat) (fits : n < 2 ^ 64) :
    ((List.range 8).map fun i => (UInt64.ofNat n >>> (56 - UInt64.ofNat (i * 8))).toUInt8) =
      BigEndian.put 8 n := by
  have shift : ∀ i : Fin 8, (56 - UInt64.ofNat (i * 8)).toNat = 8 * (8 - 1 - i) := by decide
  rw [BigEndian.put_eq_map]
  apply List.map_congr_left
  intro i inside
  have low : 8 * (8 - 1 - i) < 64 := by omega
  have power : 2 ^ (8 * (8 - 1 - i)) = 256 ^ (8 - 1 - i) := Nat.pow_mul 2 8 (8 - 1 - i)
  apply UInt8.toNat_inj.mp
  rw [UInt64.toNat_toUInt8, UInt64.toNat_shiftRight, UInt8.toNat_ofNat',
    shift ⟨i, List.mem_range.mp inside⟩, UInt64.toNat_ofNat', Nat.mod_eq_of_lt fits,
    Nat.mod_eq_of_lt low, Nat.shiftRight_eq_div_pow, power]

theorem wordBytes (w : Word) :
    ((List.range 4).map fun i => (w >>> (24 - UInt32.ofNat (i * 8))).toUInt8) =
      BigEndian.put 4 w.toNat := by
  have shift : ∀ i : Fin 4, (24 - UInt32.ofNat (i * 8)).toNat = 8 * (4 - 1 - i) := by decide
  rw [BigEndian.put_eq_map]
  apply List.map_congr_left
  intro i inside
  have low : 8 * (4 - 1 - i) < 32 := by omega
  have power : 2 ^ (8 * (4 - 1 - i)) = 256 ^ (4 - 1 - i) := Nat.pow_mul 2 8 (4 - 1 - i)
  apply UInt8.toNat_inj.mp
  rw [UInt32.toNat_toUInt8, UInt32.toNat_shiftRight, UInt8.toNat_ofNat',
    shift ⟨i, List.mem_range.mp inside⟩, Nat.mod_eq_of_lt low, Nat.shiftRight_eq_div_pow, power]

theorem digestBytes (h : Vector Word 8) :
    (Vector.ofFn fun i : Fin 32 =>
      (h.toArray.getD (i / 4) 0 >>> (24 - UInt32.ofNat (i % 4 * 8))).toUInt8).toList =
        h.toList.flatMap fun h => BigEndian.put 4 h.toNat := by
  have words : h.toList = (List.range 8).map (h.toArray.getD · 0) := by
    apply List.ext_getElem
    · simp
    · intro i low high
      have inside : i < 8 := by simpa using low
      simp only [Vector.getElem_toList, List.getElem_map, List.getElem_range, Array.getD,
        Vector.size_toArray, dif_pos inside]
      rfl
  have places : List.range 32 = (List.range 8).flatMap fun q => (List.range 4).map (4 * q + ·) := by
    decide
  have listed : (Vector.ofFn fun i : Fin 32 =>
      (h.toArray.getD (i / 4) 0 >>> (24 - UInt32.ofNat (i % 4 * 8))).toUInt8).toList =
      (List.range 32).map fun i =>
        (h.toArray.getD (i / 4) 0 >>> (24 - UInt32.ofNat (i % 4 * 8))).toUInt8 := by
    rw [Vector.toList_ofFn, List.ofFn_eq_map, ← List.map_coe_finRange_eq_range, List.map_map]
    rfl
  rw [listed, words, List.flatMap_map, places, List.map_flatMap]
  apply List.flatMap_congr
  intro q _
  rw [← wordBytes, List.map_map]
  apply List.map_congr_left
  intro r inside
  have low := List.mem_range.mp inside
  have word : (4 * q + r) / 4 = q := by omega
  have place : (4 * q + r) % 4 = r := by omega
  rw [Function.comp_apply, word, place]

theorem Absorbed.final {ctx : Sha256} {seen : Bytes} (absorbed : Absorbed ctx seen)
    (short : seen.length < 2 ^ 61) :
    (Buffered.sha256Final ctx).toList = SecureHash.digest seen := by
  obtain ⟨count, filling⟩ := absorbed.filling
  have length := filling.length
  have marked := filling.append absorbed.room 0x80
  have few : SecureHash.zeros seen.length < 64 := Nat.mod_lt _ (by decide)
  have exact : ((Buffered.append ctx 0x80).used + SecureHash.zeros seen.length) % 64 = 56 := by
    simp only [Buffered.append, SecureHash.zeros]
    omega
  obtain ⟨count', padded, used⟩ := padLoop_filling marked (Nat.le_of_lt few) few exact
  have whole := padded.copyIn (BigEndian.put 8 (8 * seen.length))
    (by rw [used, BigEndian.put_length])
  have worked := whole.worked (by rw [used, BigEndian.put_length])
  have message : seen ++ [0x80] ++ List.replicate (SecureHash.zeros seen.length) 0 ++
      BigEndian.put 8 (8 * seen.length) = SecureHash.padded seen := by
    rw [SecureHash.padded, List.append_assoc, List.append_assoc, List.singleton_append]
  have blocks : (SecureHash.padded seen).length / 64 = count' + 1 := by
    have length' := whole.length
    rw [message] at length'
    simp only [used, BigEndian.put_length] at length'
    omega
  rw [message] at worked
  rw [SecureHash.digest, blocks, ← worked, ← digestBytes, Buffered.sha256Final, absorbed.bits,
    lengthBytes _ (by omega)]
  simp only [used]

/-- However a message is cut into updates, its digest is the standard's. -/
theorem sha256_standard (pieces : List Bytes) (short : pieces.flatten.length < 2 ^ 61) :
    (Buffered.sha256Final (pieces.foldl Buffered.sha256Update sha256Init)).toList =
      SecureHash.digest pieces.flatten :=
  (Absorbed.init.updates pieces).final short

theorem sha256_standard_abc :
    (Buffered.sha256Final ([[0x61], [0x62, 0x63]].foldl Buffered.sha256Update sha256Init)).toList =
      SecureHash.digest [0x61, 0x62, 0x63] ∧
    SecureHash.digest [0x61, 0x62, 0x63] =
      [0xba, 0x78, 0x16, 0xbf, 0x8f, 0x01, 0xcf, 0xea, 0x41, 0x41, 0x40, 0xde, 0x5d, 0xae, 0x22, 0x23,
       0xb0, 0x03, 0x61, 0xa3, 0x96, 0x17, 0x7a, 0x9c, 0xb4, 0x10, 0xff, 0x61, 0xf2, 0x00, 0x15,
       0xad] := by
  have standard := sha256_standard [[0x61], [0x62, 0x63]] (by decide)
  exact ⟨standard, standard.symm.trans (by decide +kernel)⟩

end LibreEcho.Auth
