import LibreEcho.Auth.UsersAgree

/-!
A delivered line and the loader, and the runs of the three operations.

The validator takes every line end off; the loader cuts at the newline only, so a
carriage return that follows the digest costs the line its place in the list.
-/
namespace LibreEcho.Auth

def lineEnd (line : CText) : CText :=
  line.rtakeWhile fun c => c = '\n' || c = '\r'

theorem stripLineEnd_append (line : CText) : stripLineEnd line ++ lineEnd line = line :=
  List.rdropWhile_append_rtakeWhile

theorem lineEnd_ends (line : CText) : ∀ c ∈ lineEnd line, c = '\n' ∨ c = '\r' := by
  intro c member
  simpa using List.mem_rtakeWhile_imp member

theorem readLinesFrom_ends {front ending : CText} {fuel room : Nat} (filled : front ≠ [])
    (free : '\n' ∉ front) (fits : (front ++ ending).length < room)
    (enough : (front ++ ending).length ≤ fuel) :
    ∃ first tail, CText.readLinesFrom fuel room (front ++ ending) = (front ++ first) :: tail ∧
      first.head? = ending.head? ∧ (∀ c ∈ first, c ∈ ending) ∧
      ∀ line ∈ tail, ∀ c ∈ line, c ∈ ending := by
  obtain ⟨c, name, rfl⟩ := List.exists_cons_of_ne_nil filled
  cases fuel with
  | zero => exact absurd enough (Nat.not_succ_le_zero _)
  | succ fuel =>
      rw [List.cons_append, CText.readLinesFrom, ← List.cons_append]
      by_cases newline : '\n' ∈ ending
      · obtain ⟨first, rest, rfl, clear⟩ := List.eq_append_cons_of_mem newline
        have line_free : '\n' ∉ (c :: name) ++ first := fun member =>
          (List.mem_append.mp member).elim free clear
        rw [← List.append_assoc] at fits ⊢
        have short : ((c :: name) ++ first).length < room :=
          Nat.lt_of_le_of_lt (by simp) fits
        rw [CText.readLine_append line_free short]
        refine ⟨first ++ ['\n'], _, by rw [List.append_assoc], ?_, ?_, ?_⟩
        · cases first <;> rfl
        · intro d member
          obtain member | member := List.mem_append.mp member
          · exact List.mem_append_left _ member
          · rw [List.mem_singleton.mp member]
            exact List.mem_append_right _ List.mem_cons_self
        · intro line read d member
          exact List.mem_append_right _ (List.mem_cons_of_mem _ (CText.readLinesFrom_mem read member))
      · have line_free : '\n' ∉ (c :: name) ++ ending := fun member =>
          (List.mem_append.mp member).elim free newline
        rw [CText.readLine_last line_free fits.le]
        refine ⟨ending, _, rfl, rfl, fun _ => id, ?_⟩
        intro line read d member
        cases fuel <;> cases read

theorem Storable.load_line_return {u : LeAuthUser} (s : Storable u) (rest : CText) :
    loadUserLine (userLine u ++ '\r' :: rest) = none := by
  unfold loadUserLine
  dsimp only
  split
  case isTrue => rfl
  case isFalse =>
    obtain ⟨first, name, user⟩ := List.exists_cons_of_ne_nil s.filled
    have opens := s.opens first (by simp [user])
    have starts : userLine u ++ '\r' :: rest = first :: (userLine u ++ '\r' :: rest).tail := by
      simp [userLine, user]
    have kept : (userLine u ++ '\r' :: rest).dropWhile (fun c => c = ' ' || c = '\t') =
        userLine u ++ '\r' :: rest := by
      rw [starts, List.dropWhile_cons_of_neg (by simp [opens.1, opens.2.1])]
    have cut : (userLine u ++ '\r' :: rest).takeWhile (· ≠ '\n') =
        userLine ⟨u.username, u.salt, u.digest ++ '\r' :: rest.takeWhile (· ≠ '\n')⟩ := by
      rw [List.takeWhile_append_of_pos fun c member => decide_eq_true (s.line_plain c member).1]
      simp [userLine]
    have free : ':' ∉ u.username := fun member => (s.plain ':' member).1 rfl
    have salt_free : ':' ∉ u.salt := fun member => (validHex_plain s.secrets.2.2.1 ':' member).1 rfl
    have unsound : UserFields.sound ⟨u.username, "sha256".toList, u.salt,
        u.digest ++ '\r' :: rest.takeWhile (· ≠ '\n')⟩ = false := by
      refine Bool.eq_false_iff.mpr fun sound => ?_
      have length := (sound_iff.mp sound).2.2.2.2.1
      have digest := s.secrets.2.2.2.1
      rw [List.length_append, List.length_cons] at length
      omega
    rw [kept, cut, userFields_line free salt_free]
    dsimp only
    rw [if_pos (.inr (.inr unsound))]

theorem leAuthLoad_line {path : CText} {users : List LeAuthUser} {u : LeAuthUser}
    (named : path ≠ []) (sound : UsersSound (users ++ [u])) (ending : CText)
    (ends : ∀ c ∈ ending, c = '\n' ∨ c = '\r')
    (fits : (userLine u ++ ending).length < leAuthUsersLineMax) :
    (leAuthLoad path (some (usersText users ++ (userLine u ++ ending)))).2.users =
      if ending.head? = some '\r' then users else users ++ [u] := by
  have storable := sound.storable u (by simp)
  have before : UsersSound users :=
    ⟨fun v member => sound.storable v (List.mem_append_left _ member),
      sound.distinct.sublist ((List.sublist_append_left _ _).map _),
      (List.length_append ▸ Nat.le_add_right _ _).trans sound.fits⟩
  have room : ¬leAuthMaxUsers ≤ users.length := by
    have := sound.fits
    rw [List.length_append, List.length_singleton] at this
    omega
  have fresh : u.username ∉ users.map LeAuthUser.username := by
    have distinct := sound.distinct
    rw [List.map_append, List.nodup_append] at distinct
    exact fun member => distinct.2.2 _ member _ (by simp) rfl
  obtain ⟨fuel, enough, lines⟩ := usersLines_append before (userLine u ++ ending)
  have filled : userLine u ≠ [] := fun empty => storable.filled (by simp [userLine] at empty)
  obtain ⟨first, tail, read, head, inside, rest⟩ := readLinesFrom_ends filled
    (fun member => (storable.line_plain _ member).1 rfl)
    (fits.trans (by decide : leAuthUsersLineMax < authLineSize - 1)) enough
  have plain : ∀ c ∈ ending, c ≠ '\x00' ∧ c ≠ ':' := fun c member => by
    obtain rfl | rfl := ends c member <;> decide
  have blank : ∀ line ∈ tail.map CText.ofBuffer, ':' ∉ line := by
    intro line member colon
    obtain ⟨buffer, later, rfl⟩ := List.mem_map.mp member
    exact (plain ':' (rest buffer later ':' ((List.takeWhile_sublist _).subset colon))).2 rfl
  have loaded : loadLoop (usersLines (usersText users ++ (userLine u ++ ending))) [] =
      some (if ending.head? = some '\r' then users else users ++ [u]) := by
    rw [lines, loadLoop_lines [] before, List.nil_append, read, List.map_cons,
      storable.ofBuffer fun c member => (plain c (inside c member)).1, loadLoop, if_neg room]
    by_cases cr : ending.head? = some '\r'
    · obtain ⟨more, rfl⟩ : ∃ more, first = '\r' :: more := by
        rw [cr] at head
        exact List.head?_eq_some_iff.mp head
      rw [if_pos cr, storable.load_line_return]
      exact loadLoop_blank users blank
    · have newline : ∀ c ∈ first.head?, c = '\n' := by
        intro c starts
        have member : c ∈ ending := List.mem_of_mem_head? (head ▸ starts)
        exact (ends c member).resolve_right fun same => cr (head ▸ same ▸ starts)
      rw [if_neg cr, storable.load_line newline]
      dsimp only
      rw [if_neg fresh]
      exact loadLoop_blank _ blank
  unfold leAuthLoad
  rw [if_neg named]
  dsimp only
  rw [loaded]

/-! ### Accepted lines -/

def UserFields.toUser (f : UserFields) : LeAuthUser :=
  { username := f.user, salt := f.salt, digest := f.digest }

theorem toLower_unfolded {c : Char}
    (allowed : (c.isLower || c.isDigit || c = '.' || c = '_' || c = '-') = true) :
    c.toLower = c := by
  have small : ¬(65 ≤ c.toNat ∧ c.toNat ≤ 90) := by
    intro upper
    simp only [Bool.or_eq_true, decide_eq_true_eq, or_assoc] at allowed
    obtain lower | digit | rfl | rfl | rfl := allowed
    · have least : 97 ≤ c.toNat := (decide_eq_true_eq.mp (Bool.and_eq_true _ _ ▸ lower).1)
      omega
    · have most : c.toNat ≤ 57 := (decide_eq_true_eq.mp (Bool.and_eq_true _ _ ▸ digit).2)
      omega
    all_goals exact absurd upper (by decide)
  apply Char.toNat_inj.mp
  rw [toLower_toNat, if_neg small]

theorem leAuthUsersLineValid_folded {line : CText} {f : UserFields}
    (valid : leAuthUsersLineValid line = true) (cut : userFields (stripLineEnd line) = some f) :
    f.user.map Char.toLower = f.user := by
  unfold leAuthUsersLineValid at valid
  rw [cut] at valid
  split at valid
  case isTrue => cases valid
  case isFalse =>
    dsimp only at valid
    split at valid
    case isTrue => cases valid
    case isFalse =>
      split at valid
      case isTrue => cases valid
      case isFalse =>
        have allowed := List.all_eq_true.mp valid
        refine (List.map_congr_left fun c member => ?_).trans (List.map_id _)
        exact toLower_unfolded (allowed c member)

theorem accepted_line {line : CText} {f : UserFields} (valid : leAuthUsersLineValid line = true)
    (cut : userFields (stripLineEnd line) = some f) :
    Storable f.toUser ∧ stripLineEnd line = userLine f.toUser ∧
      line.length < leAuthUsersLineMax := by
  obtain ⟨fits, g, same, name, sound⟩ := leAuthUsersLineValid_fields valid
  obtain rfl : f = g := Option.some.inj (cut.symm.trans same)
  have storable := storable_of_valid name sound
  have short := (validUsername_opens name).2.1
  rw [leAuthFoldUsername, List.take_of_length_le (Nat.le_sub_one_of_lt short),
    leAuthUsersLineValid_folded valid cut] at storable
  exact ⟨storable, (userLine_fields cut sound).symm, fits⟩

def Returned (line : CText) : Prop :=
  (lineEnd line).head? = some '\r'

instance (line : CText) : Decidable (Returned line) :=
  inferInstanceAs (Decidable (_ = _))

theorem accepted_loads {path line : CText} {users : List LeAuthUser} {f : UserFields}
    (named : path ≠ []) (sound : UsersSound users)
    (valid : leAuthUsersLineValid line = true) (cut : userFields (stripLineEnd line) = some f)
    (fresh : f.user ∉ users.map LeAuthUser.username) (room : users.length < leAuthMaxUsers) :
    ((leAuthLoad path (some (usersText users ++ line))).2.users = users ++ [f.toUser] ↔
        ¬Returned line) ∧
      (leAuthLoad path (some (usersText users ++ (stripLineEnd line ++ ['\n'])))).2.users =
        users ++ [f.toUser] := by
  obtain ⟨storable, text, fits⟩ := accepted_line valid cut
  have added := sound.add room storable fresh
  refine ⟨?_, ?_⟩
  · have loaded := leAuthLoad_line named added _ (lineEnd_ends line)
      (by rwa [← text, stripLineEnd_append])
    rw [← text, stripLineEnd_append] at loaded
    rw [loaded]
    unfold Returned
    split
    case isTrue returned =>
      refine iff_of_false (fun same => ?_) (not_not_intro returned)
      have := congrArg List.length same
      rw [List.length_append, List.length_singleton] at this
      omega
    case isFalse plain => exact iff_of_true rfl plain
  · have loaded := leAuthLoad_line named added ['\n'] (CText.forall_mem (by decide))
      (by
        have short := storable.line_short
        rw [List.length_append, List.length_singleton, leAuthUsersLineMax]
        omega)
    rw [text, loaded]
    rfl

/-! ### Runs -/

def Starts (path : CText) (s : AuthStore) : Prop :=
  s.db.users = [] ∨ s.db.users = (leAuthLoad path s.files.users).2.users

theorem Starts.sound {path : CText} {s : AuthStore} (starts : Starts path s) :
    UsersSound s.db.users := by
  obtain empty | loaded := starts
  · rw [empty]
    exact usersSound_nil
  · rw [loaded]
    exact leAuthLoad_sound path _

theorem run_sound {path : CText} {s : AuthStore} (starts : Starts path s)
    (ops : List (UsersOp × (UsersFileOp → Bool))) :
    UsersSound (Runs.run (usersStep path) s ops).db.users :=
  @Runs.run_invariant_always _ _ (usersStep path) (fun s => UsersSound s.db.users)
    (fun _ op => usersStep_sound op) _ starts.sound ops

/--
In every run each call leaves users, sessions and file as they were or leaves a file
that loads to the users in memory, the names stay folded and distinct, and an accepted
line for a new name is read back as its user unless a carriage return follows its digest.
-/
theorem users_agree {path : CText} {s : AuthStore} (starts : Starts path s)
    (ops : List (UsersOp × (UsersFileOp → Bool))) :
    let users := (Runs.run (usersStep path) s ops).db.users
    Runs.Admits (usersStep path) (Agrees path) s ops ∧
      (∀ u ∈ users, leAuthFoldUsername leAuthUsernameMax u.username = u.username) ∧
      (users.map LeAuthUser.username).Nodup ∧
      ∀ (line : CText) (f : UserFields), path ≠ [] → leAuthUsersLineValid line = true →
        userFields (stripLineEnd line) = some f → reservedUsername f.user = false →
        f.user ∉ users.map LeAuthUser.username → users.length < leAuthMaxUsers →
          ((leAuthLoad path (some (usersText users ++ line))).2.users = users ++ [f.toUser] ↔
              ¬Returned line) ∧
            (leAuthLoad path (some (usersText users ++ (stripLineEnd line ++ ['\n'])))).2.users =
              users ++ [f.toUser] := by
  intro users
  have sound : UsersSound users := run_sound starts ops
  refine ⟨?_, fun u member => (sound.storable u member).fold, sound.distinct, ?_⟩
  · exact @Runs.admits_of_invariant _ _ (usersStep path) (fun s => UsersSound s.db.users) (Agrees path)
      (fun _ op => usersStep_sound op) (fun _ op => agrees_of_sound op) _ starts.sound ops
  · intro line f named valid cut _ fresh room
    exact accepted_loads named sound valid cut fresh room

def deliveredFields (name : CText) : UserFields :=
  ⟨name, "sha256".toList, List.replicate 16 '0', List.replicate 64 'a'⟩

def deliveredLine (name ending : CText) : CText :=
  userLine (deliveredFields name).toUser ++ ending

def deliveredOnce : AuthStore :=
  Runs.run (usersStep "users".toList) ⟨{}, ⟨none, none⟩⟩
    [(.addUsersLine (deliveredLine "ada".toList []), fun _ => false)]

/-- A second account behind one that was added. -/
theorem users_agree_delivered :
    (leAuthLoad "users".toList (some (usersText deliveredOnce.db.users ++
        deliveredLine "bob".toList ['\n', '\r']))).2.users =
      deliveredOnce.db.users ++ [(deliveredFields "bob".toList).toUser] := by
  have agreed := (@users_agree "users".toList ⟨{}, ⟨none, none⟩⟩ (.inl rfl)
    [(.addUsersLine (deliveredLine "ada".toList []), fun _ => false)]).2.2.2
  have loaded := agreed (deliveredLine "bob".toList ['\n', '\r'])
    (deliveredFields "bob".toList) (by decide) (by decide +kernel) (by decide +kernel)
    (by decide +kernel) (by decide +kernel) (by decide +kernel)
  rw [deliveredOnce]
  exact loaded.1.mpr (by decide +kernel)

/-- Accepted, and skipped by the loader. -/
theorem users_agree_returned :
    ∃ (line : CText) (f : UserFields), leAuthUsersLineValid line = true ∧
      userFields (stripLineEnd line) = some f ∧ reservedUsername f.user = false ∧
      (leAuthLoad "users".toList (some line)).2.users = [] :=
  ⟨deliveredLine "ada".toList ['\r', '\n'], deliveredFields "ada".toList, by decide +kernel,
    by decide +kernel, by decide, by decide +kernel⟩

end LibreEcho.Auth
