import Mathlib
import LibreEcho.Lib.CText

/-!
The salted SHA-256 of `auth.c`.

The context takes its input byte by byte; a full block is worked in at once, as
`sha256_update` does. A digest is a vector of 32 bytes, so its hexadecimal text
has 64 digits by construction.
-/
namespace LibreEcho.Auth

structure Sha256 where
  h : Vector UInt32 8
  bits : UInt64
  used : Nat
  block : Vector UInt8 64

def rotr (value : UInt32) (count : UInt32) : UInt32 :=
  (value >>> count) ||| (value <<< (32 - count))

def ch (x y z : UInt32) : UInt32 := (x &&& y) ^^^ (~~~x &&& z)
def maj (x y z : UInt32) : UInt32 := (x &&& y) ^^^ (x &&& z) ^^^ (y &&& z)

def roundConstants : List UInt32 :=
  [0x428a2f98, 0x71374491, 0xb5c0fbcf, 0xe9b5dba5, 0x3956c25b, 0x59f111f1, 0x923f82a4, 0xab1c5ed5,
   0xd807aa98, 0x12835b01, 0x243185be, 0x550c7dc3, 0x72be5d74, 0x80deb1fe, 0x9bdc06a7, 0xc19bf174,
   0xe49b69c1, 0xefbe4786, 0x0fc19dc6, 0x240ca1cc, 0x2de92c6f, 0x4a7484aa, 0x5cb0a9dc, 0x76f988da,
   0x983e5152, 0xa831c66d, 0xb00327c8, 0xbf597fc7, 0xc6e00bf3, 0xd5a79147, 0x06ca6351, 0x14292967,
   0x27b70a85, 0x2e1b2138, 0x4d2c6dfc, 0x53380d13, 0x650a7354, 0x766a0abb, 0x81c2c92e, 0x92722c85,
   0xa2bfe8a1, 0xa81a664b, 0xc24b8b70, 0xc76c51a3, 0xd192e819, 0xd6990624, 0xf40e3585, 0x106aa070,
   0x19a4c116, 0x1e376c08, 0x2748774c, 0x34b0bcb5, 0x391c0cb3, 0x4ed8aa4a, 0x5b9cca4f, 0x682e6ff3,
   0x748f82ee, 0x78a5636f, 0x84c87814, 0x8cc70208, 0x90befffa, 0xa4506ceb, 0xbef9a3f7, 0xc67178f2]

/-- The sixteen words of a block, and the forty-eight made from them. -/
def sha256Words (block : Vector UInt8 64) : Array UInt32 :=
  let byte (i : Nat) : UInt32 := (block.toArray.getD i 0).toUInt32
  let first := (Array.range 16).map fun i =>
    (byte (i * 4) <<< 24) ||| (byte (i * 4 + 1) <<< 16) ||| (byte (i * 4 + 2) <<< 8) |||
      byte (i * 4 + 3)
  (List.range 48).foldl
    (fun w n =>
      let i := n + 16
      let s0 := rotr (w.getD (i - 15) 0) 7 ^^^ rotr (w.getD (i - 15) 0) 18 ^^^
        (w.getD (i - 15) 0 >>> 3)
      let s1 := rotr (w.getD (i - 2) 0) 17 ^^^ rotr (w.getD (i - 2) 0) 19 ^^^
        (w.getD (i - 2) 0 >>> 10)
      w.push (w.getD (i - 16) 0 + s0 + w.getD (i - 7) 0 + s1))
    first

/-- One round on the working variables `a` to `h`. -/
def sha256Round (v : Vector UInt32 8) (k w : UInt32) : Vector UInt32 8 :=
  let s1 := rotr v[4] 6 ^^^ rotr v[4] 11 ^^^ rotr v[4] 25
  let t1 := v[7] + s1 + ch v[4] v[5] v[6] + k + w
  let s0 := rotr v[0] 2 ^^^ rotr v[0] 13 ^^^ rotr v[0] 22
  let t2 := s0 + maj v[0] v[1] v[2]
  #v[t1 + t2, v[0], v[1], v[2], v[3] + t1, v[4], v[5], v[6]]

def sha256Block (h : Vector UInt32 8) (block : Vector UInt8 64) : Vector UInt32 8 :=
  let mixed := (roundConstants.zip (sha256Words block).toList).foldl
    (fun v round => sha256Round v round.1 round.2) h
  h.zipWith (· + ·) mixed

def sha256Init : Sha256 where
  h := #v[0x6a09e667, 0xbb67ae85, 0x3c6ef372, 0xa54ff53a, 0x510e527f, 0x9b05688c, 0x1f83d9ab,
    0x5be0cd19]
  bits := 0
  used := 0
  block := Vector.replicate 64 0

/-- One byte into the block, which is worked in when it is full. -/
def sha256Put (ctx : Sha256) (byte : UInt8) : Sha256 :=
  let block := ctx.block.setIfInBounds ctx.used byte
  if ctx.used + 1 = 64 then { ctx with h := sha256Block ctx.h block, used := 0, block := block }
  else { ctx with used := ctx.used + 1, block := block }

def sha256Update (ctx : Sha256) (bytes : List UInt8) : Sha256 :=
  bytes.foldl (fun ctx byte => sha256Put { ctx with bits := ctx.bits + 8 } byte) ctx

/-- Zeros until 56 bytes of the block are used. The first argument bounds their number. -/
def sha256Pad : Nat → Sha256 → Sha256
  | 0, ctx => ctx
  | fuel + 1, ctx => if ctx.used = 56 then ctx else sha256Pad fuel (sha256Put ctx 0)

def sha256Final (ctx : Sha256) : Vector UInt8 32 :=
  let padded := sha256Pad 64 (sha256Put ctx 0x80)
  let length := (List.range 8).map fun i => (ctx.bits >>> (56 - UInt64.ofNat (i * 8))).toUInt8
  let h := (length.foldl sha256Put padded).h
  Vector.ofFn fun i : Fin 32 => (h.toArray.getD (i / 4) 0 >>> (24 - UInt32.ofNat (i % 4 * 8))).toUInt8

def hexDigit (value : Nat) : Char :=
  "0123456789abcdef".toList.getD value '0'

def bytesHex (bytes : List UInt8) : CText :=
  bytes.flatMap fun b => [hexDigit (b.toNat / 16), hexDigit (b.toNat % 16)]

def digestHex (digest : Vector UInt8 32) : CText :=
  bytesHex digest.toList

def textBytes (text : CText) : List UInt8 :=
  text.map fun c => UInt8.ofNat c.toNat

def hashPassword (salt password : CText) : CText :=
  digestHex (sha256Final
    (sha256Update (sha256Update (sha256Update sha256Init (textBytes salt)) (textBytes [':']))
      (textBytes password)))

theorem bytesHex_length (bytes : List UInt8) : (bytesHex bytes).length = 2 * bytes.length := by
  simp [bytesHex, List.length_flatMap, List.map_const', Nat.mul_comm]

theorem hexDigit_mem (value : Nat) : hexDigit value ∈ "0123456789abcdef".toList := by
  by_cases small : value < 16
  · revert value
    decide
  · have long : "0123456789abcdef".toList.length ≤ value := Nat.not_lt.mp small
    rw [hexDigit, List.getD_eq_getElem?_getD, List.getElem?_eq_none long]
    decide

theorem bytesHex_digits (bytes : List UInt8) :
    ∀ c ∈ bytesHex bytes, c ∈ "0123456789abcdef".toList := by
  intro c member
  obtain ⟨b, -, member⟩ := List.mem_flatMap.mp member
  simp only [List.mem_cons, List.not_mem_nil, or_false] at member
  rcases member with rfl | rfl <;> exact hexDigit_mem _

end LibreEcho.Auth

/-!
The user list of `auth.c` and its file, with `auth_user_management.inc`.

The array of users and its count are a list. Every file operation of a write may
fail on its own; a write builds a temporary file and renames it. Characters stand
for bytes.
-/
namespace LibreEcho.Auth

def leAuthMaxUsers : Nat := 8
def leAuthMaxSessions : Nat := 8
def leAuthUsernameMax : Nat := 32
def leAuthPasswordMax : Nat := 128
def leAuthUsersLineMax : Nat := 192

/-- The line buffer of `le_auth_load`. -/
def authLineSize : Nat := 256

structure LeAuthUser where
  username : CText
  salt : CText
  digest : CText
deriving DecidableEq, Repr

structure LeAuthSession where
  token : CText := []
  username : CText := []
  expires : Int := 0
  persisted : Bool := false
deriving DecidableEq, Repr

structure LeAuthDb where
  enabled : Bool := false
  users : List LeAuthUser := []
  sessions : Fin leAuthMaxSessions → LeAuthSession := fun _ => {}
  persistedSessionEvicted : Bool := false

/-! ### Names and lines -/

/-- The name in lower case, cut to a buffer of `size` bytes. -/
def leAuthFoldUsername (size : Nat) (name : CText) : CText :=
  (name.take (size - 1)).map Char.toLower

def validUsername (name : CText) : Bool :=
  name ≠ [] && decide (name.length < leAuthUsernameMax) &&
    name.all fun c => c.isAlphanum || c = '.' || c = '_' || c = '-'

def reservedNames : List CText :=
  ["root".toList, ".".toList, "..".toList, "libreecho-ssh".toList]

def reservedUsername (name : CText) : Bool :=
  leAuthFoldUsername leAuthUsernameMax name ∈ reservedNames

def validHex (text : CText) : Bool :=
  text.all fun c =>
    c.isDigit || decide ('a' ≤ c ∧ c ≤ 'f') || decide ('A' ≤ c ∧ c ≤ 'F')

structure UserFields where
  user : CText
  method : CText
  salt : CText
  digest : CText
deriving DecidableEq, Repr

def userFields (line : CText) : Option UserFields :=
  match CText.cutAt ':' line with
  | none => none
  | some (user, rest) =>
      match CText.cutAt ':' rest with
      | none => none
      | some (method, rest) =>
          match CText.cutAt ':' rest with
          | none => none
          | some (salt, digest) => some ⟨user, method, salt, digest⟩

/-- What the loader and the validator ask of method, salt and digest. -/
def UserFields.sound (f : UserFields) : Bool :=
  f.method = "sha256".toList && decide (16 ≤ f.salt.length) && decide (f.salt.length ≤ 64) &&
    validHex f.salt && decide (f.digest.length = 64) && validHex f.digest

/-- One line of the users file; `none` when it is skipped. -/
def loadUserLine (line : CText) : Option LeAuthUser :=
  let user := line.dropWhile fun c => c = ' ' || c = '\t'
  if user = [] ∨ user.head? = some '#' then none
  else
    match userFields (user.takeWhile (· ≠ '\n')) with
    | none => none
    | some f =>
        if f.user = [] ∨ leAuthUsernameMax ≤ f.user.length ∨ f.sound = false then none
        else
          some
            { username := leAuthFoldUsername leAuthUsernameMax f.user
              salt := f.salt
              digest := f.digest }

/-- `none` when a name comes twice. -/
def loadLoop : List CText → List LeAuthUser → Option (List LeAuthUser)
  | [], users => some users
  | line :: rest, users =>
      if leAuthMaxUsers ≤ users.length then some users
      else
        match loadUserLine line with
        | none => loadLoop rest users
        | some u =>
            if u.username ∈ users.map LeAuthUser.username then none
            else loadLoop rest (users ++ [u])

/-- The lines as the buffer of `fgets` holds them. -/
def usersLines (text : CText) : List CText :=
  (CText.readLines authLineSize text).map CText.ofBuffer

/-- The flag is the result 0. `file` is `none` when it cannot be opened. -/
def leAuthLoad (path : CText) (file : Option CText) : Bool × LeAuthDb :=
  if path = [] then (true, {})
  else
    match file with
    | none => (false, {})
    | some text =>
        match loadLoop (usersLines text) [] with
        | none => (false, {})
        | some users => (users ≠ [], { users := users, enabled := users ≠ [] })

def stripLineEnd (line : CText) : CText :=
  line.rdropWhile fun c => c = '\n' || c = '\r'

def leAuthUsersLineValid (line : CText) : Bool :=
  if line = [] ∨ leAuthUsersLineMax ≤ line.length then false
  else
    match userFields (stripLineEnd line) with
    | none => false
    | some f =>
        if ':' ∈ f.digest then false
        else if validUsername f.user = false ∨ f.sound = false then false
        else f.user.all fun c => c.isLower || c.isDigit || c = '.' || c = '_' || c = '-'

/-! ### The file -/

/-- The operations a call can see fail. -/
inductive UsersFileOp where
  | random | unlinkStale | openTemporary | fdopen | print (index : Nat) | flush | sync
  | chmodTemporary | close | rename | chmodPath | unlinkTemporary
deriving DecidableEq, Repr

structure UsersFiles where
  users : Option CText
  temporary : Option CText
deriving DecidableEq, Repr

def userLine (u : LeAuthUser) : CText :=
  u.username ++ ":sha256:".toList ++ u.salt ++ ":".toList ++ u.digest

def usersText (users : List LeAuthUser) : CText :=
  CText.terminated '\n' (users.map userLine)

section Write
variable (fails : UsersFileOp → Bool)

def discardTemporary (files : UsersFiles) : UsersFiles :=
  { files with
    temporary := if fails .unlinkTemporary then files.temporary else none }

/-- A print that fails, if there is one among the first `count`. -/
def printFails (count : Nat) : Bool :=
  (List.range count).any fun i => fails (.print i)

def writeUsersFile (path : CText) (users : List LeAuthUser) (files : UsersFiles) :
    Bool × UsersFiles :=
  if path = [] ∨ users = [] ∨ leAuthMaxUsers < users.length ∨
      512 ≤ (path ++ ".tmp".toList).length then (false, files)
  else
    let files :=
      { files with temporary := if fails .unlinkStale then files.temporary else none }
    -- O_EXCL: a stale temporary that stayed is an error
    if fails .openTemporary ∨ files.temporary ≠ none then (false, files)
    else if fails .fdopen then (false, discardTemporary fails { files with temporary := some [] })
    else
      let files := { files with temporary := some (usersText users) }
      if printFails fails users.length ∨ fails .flush ∨ fails .sync ∨ fails .chmodTemporary ∨
          fails .close ∨ fails .rename then (false, discardTemporary fails files)
      else (true, { users := files.temporary, temporary := none })

/-! ### The three operations -/

structure AuthStore where
  db : LeAuthDb
  files : UsersFiles

/-- A list of users that is written first and adopted when that succeeds. -/
def adoptUsers (path : CText) (users : List LeAuthUser) (db : LeAuthDb) (s : AuthStore) :
    Bool × AuthStore :=
  let written := writeUsersFile fails path users s.files
  if written.1 = false then (false, { s with files := written.2 })
  else (true, { db := { db with users := users }, files := written.2 })

/-- `salt` is the 32 random bytes. -/
def leAuthAddUser (path username password : CText) (salt : Vector UInt8 32) (s : AuthStore) :
    Bool × AuthStore :=
  if path = [] ∨ validUsername username = false ∨ reservedUsername username ∨
      password.length < 8 ∨ leAuthPasswordMax < password.length ∨
      leAuthMaxUsers ≤ s.db.users.length then (false, s)
  else
    let folded := leAuthFoldUsername leAuthUsernameMax username
    if folded ∈ s.db.users.map LeAuthUser.username then (false, s)
    else if fails .random then (false, s)
    else
      let salt := bytesHex salt.toList
      adoptUsers fails path
        (s.db.users ++
          [{ username := folded, salt := salt, digest := hashPassword salt password }])
        { s.db with enabled := true } s

def leAuthAddUsersLine (path line : CText) (s : AuthStore) : Bool × AuthStore :=
  if path = [] ∨ leAuthUsersLineValid line = false then (false, s)
  else
    match userFields (stripLineEnd line) with
    | none => (false, s)
    | some f =>
        let folded := leAuthFoldUsername leAuthUsernameMax f.user
        if reservedUsername f.user ∨ leAuthMaxUsers ≤ s.db.users.length ∨
            folded ∈ s.db.users.map LeAuthUser.username then (false, s)
        else
          adoptUsers fails path
            (s.db.users ++
              [{ username := folded, salt := f.salt.take 64, digest := f.digest.take 64 }])
            { s.db with enabled := true } s

def dropSessions (name : CText) (sessions : Fin leAuthMaxSessions → LeAuthSession) :
    Fin leAuthMaxSessions → LeAuthSession :=
  fun i => if (sessions i).username = name then { sessions i with token := [] } else sessions i

def leAuthRemoveUser (path username : CText) (s : AuthStore) : Bool × AuthStore :=
  if path = [] ∨ validUsername username = false ∨ s.db.users.length ≤ 1 then (false, s)
  else
    let folded := leAuthFoldUsername leAuthUsernameMax username
    if folded ∉ s.db.users.map LeAuthUser.username then (false, s)
    else
      adoptUsers fails path (s.db.users.filter fun u => u.username ≠ folded)
        { s.db with enabled := true, sessions := dropSessions folded s.db.sessions } s

end Write

end LibreEcho.Auth
