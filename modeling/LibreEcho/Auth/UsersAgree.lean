import LibreEcho.Lib.Runs
import LibreEcho.Auth.Users

/-!
The users file and the user list agree.

A stored user is one whose line the loader reads back. Every user the loader, an
added account or an accepted line brings in is storable, so after every operation
that succeeds the file loads to exactly the list in memory.
-/
namespace LibreEcho.Auth

/-! ### One line -/

structure Storable (u : LeAuthUser) : Prop where
  filled : u.username ≠ []
  short : u.username.length < leAuthUsernameMax
  folded : u.username.map Char.toLower = u.username
  opens : ∀ c ∈ u.username.head?, c ≠ ' ' ∧ c ≠ '\t' ∧ c ≠ '#'
  plain : ∀ c ∈ u.username, c ≠ ':' ∧ c ≠ '\n' ∧ c ≠ '\x00'
  secret : UserFields.sound ⟨u.username, "sha256".toList, u.salt, u.digest⟩ = true

theorem sound_iff {f : UserFields} :
    f.sound = true ↔ f.method = "sha256".toList ∧ 16 ≤ f.salt.length ∧ f.salt.length ≤ 64 ∧
      validHex f.salt = true ∧ f.digest.length = 64 ∧ validHex f.digest = true := by
  simp only [UserFields.sound, Bool.and_eq_true, decide_eq_true_eq, and_assoc]

theorem validHex_plain {text : CText} (hex : validHex text = true) :
    ∀ c ∈ text, c ≠ ':' ∧ c ≠ '\n' ∧ c ≠ '\r' ∧ c ≠ '\x00' := by
  intro c member
  have digit := List.all_eq_true.mp hex c member
  refine ⟨?_, ?_, ?_, ?_⟩ <;> rintro rfl <;> revert digit <;> decide

theorem userFields_line {user salt digest : CText} (user_free : ':' ∉ user)
    (salt_free : ':' ∉ salt) :
    userFields (userLine ⟨user, salt, digest⟩) =
      some ⟨user, "sha256".toList, salt, digest⟩ := by
  have first : userLine ⟨user, salt, digest⟩ =
      user ++ ':' :: ("sha256".toList ++ ':' :: (salt ++ ':' :: digest)) := by
    simp [userLine]
  unfold userFields
  rw [first, CText.cutAt_append ':' user _ user_free]
  dsimp only
  rw [CText.cutAt_append ':' "sha256".toList _ (by decide)]
  dsimp only
  rw [CText.cutAt_append ':' salt _ salt_free]

theorem userFields_some {line : CText} {f : UserFields} (cut : userFields line = some f) :
    line = f.user ++ ':' :: (f.method ++ ':' :: (f.salt ++ ':' :: f.digest)) ∧ ':' ∉ f.user := by
  unfold userFields at cut
  split at cut
  case h_1 => cases cut
  case h_2 user rest first =>
    split at cut
    case h_1 => cases cut
    case h_2 method rest' second =>
      split at cut
      case h_1 => cases cut
      case h_2 salt digest third =>
        cases cut
        obtain ⟨rfl, free⟩ := CText.cutAt_some first
        obtain ⟨rfl, -⟩ := CText.cutAt_some second
        obtain ⟨rfl, -⟩ := CText.cutAt_some third
        exact ⟨rfl, free⟩

theorem userLine_fields {line : CText} {f : UserFields} (cut : userFields line = some f)
    (sound : f.sound = true) : userLine ⟨f.user, f.salt, f.digest⟩ = line := by
  rw [(userFields_some cut).1, (sound_iff.mp sound).1]
  simp [userLine]

namespace Storable
variable {u : LeAuthUser}

theorem secrets (s : Storable u) : 16 ≤ u.salt.length ∧ u.salt.length ≤ 64 ∧
    validHex u.salt = true ∧ u.digest.length = 64 ∧ validHex u.digest = true :=
  (sound_iff.mp s.secret).2

theorem line_plain (s : Storable u) : ∀ c ∈ userLine u, c ≠ '\n' ∧ c ≠ '\x00' := by
  intro c member
  obtain ⟨-, -, salt, -, digest⟩ := s.secrets
  simp only [userLine, List.mem_append] at member
  rcases member with (((member | member) | member) | member) | member
  · exact (s.plain c member).2
  · exact (CText.forall_mem (by decide) : ∀ c ∈ _, c ≠ '\n' ∧ c ≠ '\x00') c member
  · exact ⟨(validHex_plain salt c member).2.1, (validHex_plain salt c member).2.2.2⟩
  · exact (CText.forall_mem (by decide) : ∀ c ∈ _, c ≠ '\n' ∧ c ≠ '\x00') c member
  · exact ⟨(validHex_plain digest c member).2.1, (validHex_plain digest c member).2.2.2⟩

theorem line_short (s : Storable u) : (userLine u).length < 169 := by
  have short := s.short
  obtain ⟨-, salt, -, digest, -⟩ := s.secrets
  have method : (":sha256:".toList).length = 8 := by decide
  have colon : (":".toList).length = 1 := by decide
  simp only [userLine, List.length_append, method, colon, leAuthUsernameMax] at short ⊢
  omega

theorem fold (s : Storable u) : leAuthFoldUsername leAuthUsernameMax u.username = u.username := by
  rw [leAuthFoldUsername, List.take_of_length_le, s.folded]
  exact Nat.le_sub_one_of_lt s.short

theorem load_line (s : Storable u) {ending : CText} (ends : ∀ c ∈ ending.head?, c = '\n') :
    loadUserLine (userLine u ++ ending) = some u := by
  obtain ⟨first, name, user⟩ := List.exists_cons_of_ne_nil s.filled
  have opens := s.opens first (by simp [user])
  have starts : userLine u ++ ending = first :: (userLine u ++ ending).tail := by
    simp [userLine, user]
  have kept : (userLine u ++ ending).dropWhile (fun c => c = ' ' || c = '\t') =
      userLine u ++ ending := by
    rw [starts, List.dropWhile_cons_of_neg (by simp [opens.1, opens.2.1])]
  have whole : (userLine u ++ ending).takeWhile (· ≠ '\n') = userLine u := by
    rw [List.takeWhile_append_of_pos fun c member => decide_eq_true (s.line_plain c member).1]
    cases ending with
    | nil => exact List.append_nil _
    | cons c rest => simp [ends c rfl]
  have free : ':' ∉ u.username := fun member => (s.plain ':' member).1 rfl
  have salt_free : ':' ∉ u.salt := fun member => (validHex_plain s.secrets.2.2.1 ':' member).1 rfl
  have sound : UserFields.sound ⟨u.username, "sha256".toList, u.salt, u.digest⟩ ≠ false := by
    rw [s.secret]
    decide
  unfold loadUserLine
  dsimp only
  rw [kept, whole, userFields_line free salt_free]
  dsimp only
  rw [if_neg, if_neg, s.fold]
  · rintro (empty | long | unsound)
    · exact s.filled empty
    · exact absurd s.short (Nat.not_lt.mpr long)
    · exact sound unsound
  · rw [starts]
    rintro (empty | comment)
    · cases empty
    · exact opens.2.2 (Option.some.inj comment)

end Storable

/-! ### Folded names -/

theorem toLower_toNat (c : Char) :
    c.toLower.toNat = if 65 ≤ c.toNat ∧ c.toNat ≤ 90 then c.toNat + 32 else c.toNat := by
  have upper : (c.val ≥ 'A'.val ∧ c.val ≤ 'Z'.val) ↔ 65 ≤ c.toNat ∧ c.toNat ≤ 90 := Iff.rfl
  unfold Char.toLower
  split
  case isTrue large =>
    have bound := upper.mp large
    rw [if_pos bound]
    change (c.val + ('a'.val - 'A'.val)).toNat = _
    rw [UInt32.toNat_add]
    change (c.toNat + 32) % 2 ^ 32 = _
    omega
  case isFalse small => rw [if_neg (mt upper.mpr small)]

theorem toLower_toLower (c : Char) : c.toLower.toLower = c.toLower := by
  apply Char.toNat_inj.mp
  have once := toLower_toNat c
  rw [toLower_toNat c.toLower]
  split at once <;> split <;> omega

theorem toLower_eq {c d : Char} (folded : c.toLower = d) (other : d.isLower = false) : c = d := by
  have plain : ¬(97 ≤ d.toNat ∧ d.toNat ≤ 122) := by
    intro letter
    have lower : d.isLower = true := by
      simp only [Char.isLower, Bool.and_eq_true, decide_eq_true_eq]
      exact letter
    rw [lower] at other
    cases other
  apply Char.toNat_inj.mp
  have value := toLower_toNat c
  rw [folded] at value
  split at value <;> omega

theorem storable_fold {f : UserFields} (filled : f.user ≠ [])
    (short : f.user.length < leAuthUsernameMax)
    (opens : ∀ c ∈ f.user.head?, c ≠ ' ' ∧ c ≠ '\t' ∧ c ≠ '#')
    (plain : ∀ c ∈ f.user, c ≠ ':' ∧ c ≠ '\n' ∧ c ≠ '\x00') (sound : f.sound = true) :
    Storable ⟨leAuthFoldUsername leAuthUsernameMax f.user, f.salt, f.digest⟩ := by
  have whole : leAuthFoldUsername leAuthUsernameMax f.user = f.user.map Char.toLower := by
    rw [leAuthFoldUsername, List.take_of_length_le (Nat.le_sub_one_of_lt short)]
  have differs {c d : Char} (other : d.isLower = false) (different : c ≠ d) : c.toLower ≠ d :=
    fun same => different (toLower_eq same other)
  rw [whole]
  refine ⟨?_, ?_, ?_, ?_, ?_, ?_⟩
  · simpa using filled
  · simpa using short
  · rw [List.map_map]
    exact List.map_congr_left fun c _ => toLower_toLower c
  · intro c head
    rw [List.head?_map, Option.mem_def, Option.map_eq_some_iff] at head
    obtain ⟨d, first, rfl⟩ := head
    obtain ⟨blank, tab, comment⟩ := opens d first
    exact ⟨differs (by decide) blank, differs (by decide) tab, differs (by decide) comment⟩
  · intro c member
    obtain ⟨d, inside, rfl⟩ := List.mem_map.mp member
    obtain ⟨colon, newline, nul⟩ := plain d inside
    exact ⟨differs (by decide) colon, differs (by decide) newline, differs (by decide) nul⟩
  · exact sound_iff.mpr ⟨rfl, (sound_iff.mp sound).2⟩

theorem loadUserLine_storable {line : CText} {u : LeAuthUser} (nul : '\x00' ∉ line)
    (loaded : loadUserLine line = some u) : Storable u := by
  unfold loadUserLine at loaded
  dsimp only at loaded
  split at loaded
  case isTrue => cases loaded
  case isFalse starts =>
    split at loaded
    case h_1 => cases loaded
    case h_2 f cut =>
      split at loaded
      case isTrue => cases loaded
      case isFalse checked =>
        cases loaded
        have checked := not_or.mp checked
        have later := not_or.mp checked.2
        obtain ⟨text, colon_free⟩ := userFields_some cut
        generalize opened : line.dropWhile (fun c => c = ' ' || c = '\t') = rest at text starts
        have inside : ∀ c ∈ f.user, c ∈ rest.takeWhile (· ≠ '\n') := fun c member => by
          rw [text]
          exact List.mem_append_left _ member
        have from_line : ∀ c ∈ f.user, c ∈ line := fun c member => by
          have := (List.takeWhile_sublist _).subset (inside c member)
          rw [← opened] at this
          exact (List.dropWhile_sublist _).subset this
        refine storable_fold checked.1 (Nat.lt_of_not_le later.1) ?_ ?_
          (Bool.not_eq_false _ ▸ later.2)
        · intro c first
          have head : rest.head? = some c := by
            have taken : (rest.takeWhile (· ≠ '\n')).head? = some c := by
              rw [text]
              obtain ⟨d, name, user⟩ := List.exists_cons_of_ne_nil checked.1
              rw [user] at first ⊢
              exact first
            cases rest with
            | nil => cases taken
            | cons d rest =>
                rw [List.takeWhile_cons] at taken
                split at taken
                case isTrue => exact taken
                case isFalse => cases taken
          have unblank := List.head?_dropWhile_not (fun c => c = ' ' || c = '\t') line
          rw [opened, head] at unblank
          have comment : c ≠ '#' := fun same => starts (.inr (same ▸ head))
          simp only [Bool.or_eq_false_iff, decide_eq_false_iff_not] at unblank
          exact ⟨unblank.1, unblank.2, comment⟩
        · intro c member
          refine ⟨fun same => colon_free (same ▸ member), ?_, fun same => nul (same ▸ from_line c member)⟩
          have := List.mem_takeWhile_imp (inside c member)
          simpa using this

/-! ### The whole file -/

/-- Every user is storable, no name comes twice and the table is not overfull. -/
structure UsersSound (users : List LeAuthUser) : Prop where
  storable : ∀ u ∈ users, Storable u
  distinct : (users.map LeAuthUser.username).Nodup
  fits : users.length ≤ leAuthMaxUsers

theorem usersSound_nil : UsersSound [] :=
  ⟨(fun _ member => by cases member), List.nodup_nil, Nat.zero_le _⟩

theorem UsersSound.add {users : List LeAuthUser} {u : LeAuthUser} (sound : UsersSound users)
    (room : users.length < leAuthMaxUsers) (storable : Storable u)
    (fresh : u.username ∉ users.map LeAuthUser.username) : UsersSound (users ++ [u]) := by
  refine ⟨?_, ?_, ?_⟩
  · intro v member
    obtain member | member := List.mem_append.mp member
    · exact sound.storable v member
    · rw [List.mem_singleton.mp member]
      exact storable
  · rw [List.map_append, List.nodup_append]
    refine ⟨sound.distinct, List.nodup_cons.mpr ⟨List.not_mem_nil, List.nodup_nil⟩, ?_⟩
    intro a first b second same
    rw [List.map_singleton, List.mem_singleton] at second
    exact fresh (second ▸ same ▸ first)
  · rw [List.length_append, List.length_singleton]
    exact room

theorem UsersSound.filter {users : List LeAuthUser} (sound : UsersSound users)
    (keep : LeAuthUser → Bool) : UsersSound (users.filter keep) :=
  ⟨fun u member => sound.storable u (List.mem_of_mem_filter member),
    sound.distinct.sublist ((List.filter_sublist).map _),
    (List.length_filter_le _ _).trans sound.fits⟩

theorem loadLoop_sound {lines : List CText} {users users' : List LeAuthUser}
    (nul : ∀ line ∈ lines, '\x00' ∉ line) (sound : UsersSound users)
    (loaded : loadLoop lines users = some users') : UsersSound users' := by
  induction lines generalizing users with
  | nil =>
      cases loaded
      exact sound
  | cons line rest ih =>
      have later := fun line member => nul line (List.mem_cons_of_mem _ member)
      unfold loadLoop at loaded
      split at loaded
      case isTrue =>
        cases loaded
        exact sound
      case isFalse room =>
        split at loaded
        case h_1 => exact ih later sound loaded
        case h_2 u found =>
          split at loaded
          case isTrue => cases loaded
          case isFalse fresh =>
            exact ih later (sound.add (Nat.lt_of_not_le room)
              (loadUserLine_storable (nul line List.mem_cons_self) found) fresh) loaded

theorem usersLines_nul {text : CText} : ∀ line ∈ usersLines text, '\x00' ∉ line := by
  intro line member
  obtain ⟨buffer, -, rfl⟩ := List.mem_map.mp member
  intro nul
  have := List.mem_takeWhile_imp nul
  simp at this

theorem leAuthLoad_sound (path : CText) (file : Option CText) :
    UsersSound (leAuthLoad path file).2.users := by
  unfold leAuthLoad
  split
  case isTrue => exact usersSound_nil
  case isFalse =>
    split
    case h_1 => exact usersSound_nil
    case h_2 =>
      split
      case h_1 => exact usersSound_nil
      case h_2 users loaded => exact loadLoop_sound usersLines_nul usersSound_nil loaded

theorem loadLoop_lines {users : List LeAuthUser} (front : List LeAuthUser)
    (sound : UsersSound (front ++ users))
    (rest : List CText) :
    loadLoop (users.map (fun u => userLine u ++ ['\n']) ++ rest) front =
      loadLoop rest (front ++ users) := by
  induction users generalizing front with
  | nil => rw [List.map_nil, List.nil_append, List.append_nil]
  | cons u users ih =>
      have split : front ++ u :: users = (front ++ [u]) ++ users := by simp
      have storable := sound.storable u (by simp)
      have room : ¬leAuthMaxUsers ≤ front.length := by
        have fits := sound.fits
        rw [List.length_append, List.length_cons] at fits
        omega
      have fresh : u.username ∉ front.map LeAuthUser.username := by
        have distinct := sound.distinct
        rw [List.map_append, List.map_cons, List.nodup_append] at distinct
        exact fun member => distinct.2.2 _ member _ List.mem_cons_self rfl
      rw [split] at sound ⊢
      rw [List.map_cons, List.cons_append, loadLoop, if_neg room,
        storable.load_line (by simp)]
      dsimp only
      rw [if_neg fresh]
      exact ih _ sound

theorem loadLoop_blank {lines : List CText} (users : List LeAuthUser)
    (blank : ∀ line ∈ lines, ':' ∉ line) : loadLoop lines users = some users := by
  induction lines with
  | nil => rfl
  | cons line rest ih =>
      have none_here : loadUserLine line = none := by
        unfold loadUserLine
        dsimp only
        split
        case isTrue => rfl
        case isFalse =>
          split
          case h_1 => rfl
          case h_2 f cut =>
            have colon : ':' ∈ line.dropWhile (fun c => c = ' ' || c = '\t') := by
              refine (List.takeWhile_sublist (· ≠ '\n')).subset ?_
              rw [(userFields_some cut).1]
              exact List.mem_append_right _ List.mem_cons_self
            exact absurd ((List.dropWhile_sublist _).subset colon) (blank line List.mem_cons_self)
      unfold loadLoop
      rw [none_here]
      split
      case isTrue => rfl
      case isFalse => exact ih fun line member => blank line (List.mem_cons_of_mem _ member)

theorem Storable.ofBuffer {u : LeAuthUser} (s : Storable u) {ending : CText}
    (ends : ∀ c ∈ ending, c ≠ '\x00') :
    CText.ofBuffer (userLine u ++ ending) = userLine u ++ ending := by
  refine List.takeWhile_eq_self_iff.mpr fun c member => decide_eq_true ?_
  obtain member | member := List.mem_append.mp member
  · exact (s.line_plain c member).2
  · exact ends c member

theorem usersLines_append {users : List LeAuthUser} (sound : UsersSound users) (rest : CText) :
    ∃ fuel, rest.length ≤ fuel ∧ usersLines (usersText users ++ rest) =
      users.map (fun u => userLine u ++ ['\n']) ++
        (CText.readLinesFrom fuel (authLineSize - 1) rest).map CText.ofBuffer := by
  have cut : ∀ line ∈ users.map userLine, '\n' ∉ line ∧ line.length < authLineSize - 1 := by
    intro line member
    obtain ⟨u, inside, rfl⟩ := List.mem_map.mp member
    have storable := sound.storable u inside
    exact ⟨fun newline => (storable.line_plain _ newline).1 rfl,
      storable.line_short.trans (by decide)⟩
  obtain ⟨fuel, enough, read⟩ := CText.readLines_append cut rest
  refine ⟨fuel, enough, ?_⟩
  rw [usersLines, usersText, read, List.map_append, List.map_map, List.map_map]
  congr 1
  refine List.map_congr_left fun u inside => ?_
  exact (sound.storable u inside).ofBuffer (CText.forall_mem (by decide))

theorem leAuthLoad_text {path : CText} {users : List LeAuthUser} (named : path ≠ [])
    (sound : UsersSound users) (filled : users ≠ []) (rest : CText) (blank : ':' ∉ rest) :
    leAuthLoad path (some (usersText users ++ rest)) =
      (true, { users := users, enabled := true }) := by
  obtain ⟨fuel, -, lines⟩ := usersLines_append sound rest
  have loaded : loadLoop (usersLines (usersText users ++ rest)) [] = some users := by
    rw [lines, loadLoop_lines [] sound, List.nil_append]
    refine loadLoop_blank users fun line member colon => blank ?_
    obtain ⟨buffer, read, rfl⟩ := List.mem_map.mp member
    exact CText.readLinesFrom_mem read ((List.takeWhile_sublist _).subset colon)
  unfold leAuthLoad
  rw [if_neg named]
  dsimp only
  rw [loaded]
  dsimp only
  rw [decide_eq_true filled]

/-! ### The operations -/

inductive UsersOp where
  | addUser (username password : CText) (salt : Vector UInt8 32)
  | addUsersLine (line : CText)
  | removeUser (username : CText)

section Operations
variable (path : CText)

/-- One call, with the file operations that fail in it. The flag is the result 0. -/
def usersCall (s : AuthStore) (op : UsersOp) (fails : UsersFileOp → Bool) : Bool × AuthStore :=
  match op with
  | .addUser username password salt => leAuthAddUser fails path username password salt s
  | .addUsersLine line => leAuthAddUsersLine fails path line s
  | .removeUser username => leAuthRemoveUser fails path username s

def usersStep (s : AuthStore) (op : UsersOp × (UsersFileOp → Bool)) : AuthStore :=
  (usersCall path s op.1 op.2).2

def Agrees (s : AuthStore) (op : UsersOp × (UsersFileOp → Bool)) : Prop :=
  let called := usersCall path s op.1 op.2
  (called.1 = false →
    called.2.db.users = s.db.users ∧ called.2.db.sessions = s.db.sessions ∧
      called.2.files.users = s.files.users) ∧
  (called.1 = true →
    ∃ db, leAuthLoad path called.2.files.users = (true, db) ∧ db.users = called.2.db.users) ∧
  (0 < s.db.users.length →
    0 < called.2.db.users.length ∧ called.2.db.users.length ≤ leAuthMaxUsers)

end Operations

/-- Everything a call can do. -/
inductive Called (path : CText) (s : AuthStore) : Bool × AuthStore → Prop where
  | refused {files : UsersFiles} (kept : files.users = s.files.users) :
      Called path s (false, { s with files := files })
  | adopted {users : List LeAuthUser} {db : LeAuthDb} (named : path ≠ []) (filled : users ≠ [])
      (sound : UsersSound users) :
      Called path s (true,
        { db := { db with users := users }
          files := { users := some (usersText users), temporary := none } })

theorem Called.unchanged {path : CText} {s : AuthStore} : Called path s (false, s) :=
  show Called path s (false, { s with files := s.files }) from .refused rfl

section Calls
variable {path : CText} {s : AuthStore} {fails : UsersFileOp → Bool} {users : List LeAuthUser}

variable (path fails users) in
theorem writeUsersFile_cases (files : UsersFiles) :
    (∃ files', writeUsersFile fails path users files = (false, files') ∧
      files'.users = files.users) ∨
    path ≠ [] ∧ users ≠ [] ∧
      writeUsersFile fails path users files =
        (true, { users := some (usersText users), temporary := none }) := by
  unfold writeUsersFile
  dsimp only
  split
  case isTrue => exact .inl ⟨_, rfl, rfl⟩
  case isFalse checked =>
    generalize (if fails .unlinkStale then files.temporary else none) = temporary
    split
    case isTrue => exact .inl ⟨_, rfl, rfl⟩
    case isFalse =>
      split
      case isTrue => exact .inl ⟨_, rfl, rfl⟩
      case isFalse =>
        split
        case isTrue => exact .inl ⟨_, rfl, rfl⟩
        case isFalse =>
          have checked := not_or.mp checked
          exact .inr ⟨checked.1, (not_or.mp checked.2).1, rfl⟩

theorem adoptUsers_called (db : LeAuthDb) (sound : UsersSound users) :
    Called path s (adoptUsers fails path users db s) := by
  unfold adoptUsers
  obtain ⟨files', written, kept⟩ | ⟨named, filled, written⟩ :=
    writeUsersFile_cases path fails users s.files
  · rw [written]
    exact .refused kept
  · rw [written]
    exact .adopted named filled sound

theorem validUsername_opens {name : CText} (valid : validUsername name = true) :
    name ≠ [] ∧ name.length < leAuthUsernameMax ∧
      (∀ c ∈ name.head?, c ≠ ' ' ∧ c ≠ '\t' ∧ c ≠ '#') ∧
      ∀ c ∈ name, c ≠ ':' ∧ c ≠ '\n' ∧ c ≠ '\x00' := by
  simp only [validUsername, Bool.and_eq_true, decide_eq_true_eq, List.all_eq_true] at valid
  obtain ⟨⟨filled, short⟩, plain⟩ := valid
  refine ⟨filled, short, fun c first => ?_, fun c member => ?_⟩
  · have allowed := plain c (List.mem_of_mem_head? first)
    refine ⟨?_, ?_, ?_⟩ <;> rintro rfl <;> revert allowed <;> decide
  · have allowed := plain c member
    refine ⟨?_, ?_, ?_⟩ <;> rintro rfl <;> revert allowed <;> decide

theorem storable_of_valid {f : UserFields} (valid : validUsername f.user = true)
    (sound : f.sound = true) :
    Storable ⟨leAuthFoldUsername leAuthUsernameMax f.user, f.salt, f.digest⟩ := by
  obtain ⟨filled, short, opens, plain⟩ := validUsername_opens valid
  exact storable_fold filled short opens plain sound

theorem validHex_bytesHex (bytes : List UInt8) : validHex (bytesHex bytes) = true := by
  refine List.all_eq_true.mpr fun c member => ?_
  have digit : ∀ c ∈ "0123456789abcdef".toList, (c.isDigit ||
      decide ('a' ≤ c ∧ c ≤ 'f') || decide ('A' ≤ c ∧ c ≤ 'F')) = true :=
    CText.forall_mem (by decide)
  exact digit c (bytesHex_digits bytes c member)

theorem bytesHex_vector (bytes : Vector UInt8 32) : (bytesHex bytes.toList).length = 64 := by
  rw [bytesHex_length, Vector.length_toList]

theorem hashPassword_digits (salt password : CText) :
    (hashPassword salt password).length = 64 ∧ validHex (hashPassword salt password) = true := by
  unfold hashPassword digestHex
  generalize sha256Final _ = digest
  exact ⟨bytesHex_vector digest, validHex_bytesHex _⟩

theorem addedUser_sound (salt : Vector UInt8 32) (user password : CText) :
    UserFields.sound ⟨user, "sha256".toList, bytesHex salt.toList,
      hashPassword (bytesHex salt.toList) password⟩ = true := by
  have length := bytesHex_vector salt
  obtain ⟨digest, hex⟩ := hashPassword_digits (bytesHex salt.toList) password
  generalize hashPassword (bytesHex salt.toList) password = secret at digest hex
  refine sound_iff.mpr ⟨rfl, ?_, ?_, validHex_bytesHex _, digest, hex⟩
  · exact length.symm ▸ (by decide : 16 ≤ 64)
  · exact length.le

theorem addUser_called {username password : CText} {salt : Vector UInt8 32}
    (sound : UsersSound s.db.users) :
    Called path s (leAuthAddUser fails path username password salt s) := by
  unfold leAuthAddUser
  split
  case isTrue => exact .unchanged
  case isFalse checked =>
    obtain ⟨-, checked⟩ := not_or.mp checked
    obtain ⟨valid, checked⟩ := not_or.mp checked
    obtain ⟨-, -, -, room⟩ := by simpa only [not_or] using checked
    dsimp only
    split
    case isTrue => exact .unchanged
    case isFalse fresh =>
      split
      case isTrue => exact .unchanged
      case isFalse =>
        have secret := addedUser_sound salt username password
        generalize hashPassword (bytesHex salt.toList) password = digest at secret ⊢
        generalize bytesHex salt.toList = salt at secret ⊢
        have storable := storable_of_valid (Bool.not_eq_false _ ▸ valid) secret
        exact adoptUsers_called _ (sound.add (Nat.lt_of_not_le room) storable fresh)

theorem leAuthUsersLineValid_fields {line : CText} (valid : leAuthUsersLineValid line = true) :
    line.length < leAuthUsersLineMax ∧
      ∃ f, userFields (stripLineEnd line) = some f ∧ validUsername f.user = true ∧
        f.sound = true := by
  unfold leAuthUsersLineValid at valid
  split at valid
  case isTrue => cases valid
  case isFalse length =>
    refine ⟨Nat.lt_of_not_le (not_or.mp length).2, ?_⟩
    split at valid
    case h_1 => cases valid
    case h_2 f cut =>
      split at valid
      case isTrue => cases valid
      case isFalse =>
        split at valid
        case isTrue => cases valid
        case isFalse checked =>
          obtain ⟨name, sound⟩ := not_or.mp checked
          exact ⟨f, cut, Bool.not_eq_false _ ▸ name, Bool.not_eq_false _ ▸ sound⟩

theorem addUsersLine_called {line : CText} (sound : UsersSound s.db.users) :
    Called path s (leAuthAddUsersLine fails path line s) := by
  unfold leAuthAddUsersLine
  split
  case isTrue => exact .unchanged
  case isFalse checked =>
    obtain ⟨-, f, cut, valid, secret⟩ :=
      leAuthUsersLineValid_fields (Bool.not_eq_false _ ▸ (not_or.mp checked).2)
    obtain ⟨-, -, salt, -, digest, -⟩ := sound_iff.mp secret
    rw [cut]
    dsimp only
    split
    case isTrue => exact .unchanged
    case isFalse checked =>
      obtain ⟨-, room, fresh⟩ := by simpa only [not_or] using checked
      rw [List.take_of_length_le salt, List.take_of_length_le digest.le]
      exact adoptUsers_called _
        (sound.add (Nat.lt_of_not_le room) (storable_of_valid valid secret) fresh)

theorem removeUser_called {username : CText} (sound : UsersSound s.db.users) :
    Called path s (leAuthRemoveUser fails path username s) := by
  unfold leAuthRemoveUser
  split
  case isTrue => exact .unchanged
  case isFalse =>
    dsimp only
    split
    case isTrue => exact .unchanged
    case isFalse => exact adoptUsers_called _ (sound.filter _)

variable (path fails) in
theorem usersCall_called (op : UsersOp) (sound : UsersSound s.db.users) :
    Called path s (usersCall path s op fails) := by
  cases op with
  | addUser => exact addUser_called sound
  | addUsersLine => exact addUsersLine_called sound
  | removeUser => exact removeUser_called sound

theorem Called.sound {called : Bool × AuthStore} (c : Called path s called)
    (sound : UsersSound s.db.users) : UsersSound called.2.db.users := by
  cases c with
  | refused => exact sound
  | adopted _ _ adopted => exact adopted

theorem Called.refused_unchanged {called : Bool × AuthStore} (c : Called path s called)
    (refused : called.1 = false) :
    called.2.db.users = s.db.users ∧ called.2.db.sessions = s.db.sessions ∧
      called.2.files.users = s.files.users := by
  cases c with
  | refused kept => exact ⟨rfl, rfl, kept⟩
  | adopted => cases refused

theorem Called.adopted_loads {called : Bool × AuthStore} (c : Called path s called)
    (adopted : called.1 = true) :
    ∃ db, leAuthLoad path called.2.files.users = (true, db) ∧ db.users = called.2.db.users := by
  cases c with
  | refused => cases adopted
  | @adopted users _ named filled sound =>
      have loaded := leAuthLoad_text named sound filled [] List.not_mem_nil
      rw [List.append_nil] at loaded
      exact ⟨_, loaded, rfl⟩

theorem Called.filled {called : Bool × AuthStore} (c : Called path s called)
    (filled : 0 < s.db.users.length) : 0 < called.2.db.users.length := by
  cases c with
  | refused => exact filled
  | adopted _ filled => exact List.length_pos_iff.mpr filled

theorem usersStep_sound (op : UsersOp × (UsersFileOp → Bool)) (sound : UsersSound s.db.users) :
    UsersSound (usersStep path s op).db.users :=
  (usersCall_called path op.2 op.1 sound).sound sound

theorem agrees_of_sound (op : UsersOp × (UsersFileOp → Bool)) (sound : UsersSound s.db.users) :
    Agrees path s op := by
  have called := usersCall_called path op.2 op.1 sound
  exact ⟨called.refused_unchanged, called.adopted_loads,
    fun filled => ⟨called.filled filled, (called.sound sound).fits⟩⟩

end Calls

end LibreEcho.Auth
