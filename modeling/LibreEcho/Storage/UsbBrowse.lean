import LibreEcho.Lib.ByteText

/-!
How `api.c` keeps the browsing of a USB drive on the drive.

A path is decoded and checked first. It is then walked component by component, and no link is
followed. The walk checks its directories itself, but not the last component of a file's path,
so there it relies on the check before it.
-/
namespace LibreEcho.Storage
open ByteText

abbrev Text := List UInt8

def slash : UInt8 := 0x2f

def backslash : UInt8 := 0x5c

def dot : Text := ascii "."

def dotdot : Text := ascii ".."

def leUsbMount : Text := ascii "/run/libreecho/usb"

/-- Length of the `copy` buffers. -/
def copyMax : Nat := 256

/-! ### The path of a request -/

def usbRelativePathValid (part : Text) : Bool :=
  if part = [] then true
  else if part.takeWhile (· ≠ slash) = dot ∨ part.takeWhile (· ≠ slash) = dotdot then false
  else
    match _cut : part.dropWhile (· ≠ slash) with
    | [] => true
    | _ :: rest => usbRelativePathValid rest
termination_by part.length
decreasing_by
  have less : (part.dropWhile (· ≠ slash)).length ≤ part.length :=
    (List.dropWhile_suffix _).length_le
  rw [_cut, List.length_cons] at less
  exact less

/-- One character of the value behind `path=`, and what follows it. -/
def unescape (ch : UInt8) (v : Text) : UInt8 × Text :=
  if ch = 0x25 then
    match v with
    | h :: l :: rest =>
        match hexValue h, hexValue l with
        | some hi, some lo => (UInt8.ofNat (16 * hi + lo), rest)
        | _, _ => (ch, v)
    | _ => (ch, v)
  else if ch = 0x2b then (0x20, v)
  else (ch, v)

theorem unescape_length (ch : UInt8) (v : Text) : (unescape ch v).2.length ≤ v.length := by
  fun_cases unescape ch v
  case case1 =>
    simp only [List.length_cons]
    omega
  all_goals exact le_refl _

/-- The loop over the value, with `out_rel` and `overflow`. -/
def subpathLoop (size : Nat) (v outRel : Text) (overflow : Bool) : Option (Text × Bool) :=
  match v with
  | [] => some (outRel, overflow)
  | ch :: rest =>
      if ch = 0x26 then some (outRel, overflow)
      else if (unescape ch rest).1 = 0 then none
      else if size ≤ outRel.length + 1 then subpathLoop size (unescape ch rest).2 outRel true
      else subpathLoop size (unescape ch rest).2 (outRel ++ [(unescape ch rest).1]) overflow
termination_by v.length
decreasing_by all_goals exact Nat.lt_succ_of_le (unescape_length ch rest)

/-- The value of `path=` in the query of a target. -/
def pathValue (path : Text) : Option Text :=
  (strstr [0x3f] path).bind fun q => (strstr (ascii "path=") q).map (·.drop 5)

def usbFullPath (rel : Text) : Text :=
  if rel = [] then leUsbMount else leUsbMount ++ slash :: rel

/-- What `usb_subpath` writes to `out_rel` and `out_full`; `none` is -1. -/
def usbSubpath (path : Text) (size fullSize : Nat) : Option (Text × Text) :=
  match
    match pathValue path with
    | none => some ([], false)
    | some v => subpathLoop size v [] false
  with
  | none => none
  | some (rel, overflow) =>
      if overflow = true ∨ backslash ∈ rel ∨ rel.head? = some slash ∨
          usbRelativePathValid rel = false then none
      else if fullSize ≤ (usbFullPath rel).length then none
      else some (rel, usbFullPath rel)

/-! ### Opening what is on the drive -/

inductive Kind where
  | directory | regular | link | other
deriving DecidableEq

structure Drive (Node : Type) where
  kind : Node → Kind
  /-- The entry of a directory under a name. -/
  entry : Node → Text → Option Node
  /-- Where `..` leads. -/
  parent : Node → Node
  /-- Where a path of several components leads, through whatever links. -/
  follow : Node → Text → Option Node
  mount : Option Node
  parent_directory : ∀ n, kind (parent n) = .directory

variable {Node : Type} (drive : Drive Node)

namespace Drive

/-- A file that `O_NOFOLLOW`, and `O_DIRECTORY` where it is given, let open. -/
def admits (directory : Bool) (n : Node) : Bool :=
  drive.kind n ≠ .link && (!directory || drive.kind n = .directory)

/-- `openat` with `O_NOFOLLOW`, on a directory. -/
def openat (fd : Node) (path : Text) (directory : Bool) : Option Node :=
  (if slash ∈ path then drive.follow fd path
    else if path = [] then none
    else if path = dot then some fd
    else if path = dotdot then some (drive.parent fd)
    else drive.entry fd path).filter (drive.admits directory)

/-- A file reached from the mount point by child lookups, none of them at a link. -/
inductive Reached : Node → Prop where
  | mount {n : Node} : drive.mount = some n → Reached n
  | child {d n : Node} {name : Text} : Reached d → slash ∉ name → name ≠ dot → name ≠ dotdot →
      drive.entry d name = some n → drive.kind n ≠ .link → Reached n

end Drive

/-- A descriptor, unless it is -1, and every file that was opened for it. -/
structure Walk (Node : Type) where
  fd : Option Node
  opened : List Node

def usbOpenLoop (fd : Node) (opened : List Node) : List Text → Walk Node
  | [] => ⟨some fd, opened⟩
  | part :: parts =>
      if part = dot then usbOpenLoop fd opened parts
      else if part = dotdot then ⟨none, opened⟩
      else
        match drive.openat fd part true with
        | none => ⟨none, opened⟩
        | some next => usbOpenLoop next (next :: opened) parts

/-- The pieces that `strtok_r` returns. -/
def usbParts (rel : Text) : List Text := (rel.splitOn slash).filter (· ≠ [])

def usbOpenDir (rel : Text) : Walk Node :=
  match drive.mount.filter (drive.admits true) with
  | none => ⟨none, []⟩
  | some fd =>
      if rel = [] then ⟨some fd, [fd]⟩
      else if copyMax ≤ rel.length then ⟨none, [fd]⟩
      else usbOpenLoop drive fd [fd] (usbParts rel)

def usbOpenFile (rel : Text) : Walk Node :=
  if rel = [] ∨ copyMax ≤ rel.length then ⟨none, []⟩
  else
    let base := rel.rtakeWhile (· ≠ slash)
    let dir := usbOpenDir drive (rel.rdropWhile (· ≠ slash)).dropLast
    match dir.fd with
    | none => dir
    | some dirfd =>
        if base = [] then ⟨none, dir.opened⟩
        else
          match drive.openat dirfd base false with
          | none => ⟨none, dir.opened⟩
          | some fd =>
              ⟨if drive.kind fd = .regular then some fd else none, fd :: dir.opened⟩

structure Confined (rel : Text) : Prop where
  noNul : 0 ∉ rel
  noBackslash : backslash ∉ rel
  relative : rel.head? ≠ some slash
  components : ∀ c ∈ rel.splitOn slash, c ≠ dot ∧ c ≠ dotdot

/-- The value with its escapes decoded, up to a `&`. -/
def decoded (v : Text) : Text :=
  match v with
  | [] => []
  | ch :: rest => if ch = 0x26 then [] else (unescape ch rest).1 :: decoded (unescape ch rest).2
termination_by v.length
decreasing_by exact Nat.lt_succ_of_le (unescape_length ch rest)

/-! ### The check of a path -/

theorem subpathLoop_decoded {size : Nat} {v outRel rel : Text} {overflow : Bool}
    (done : subpathLoop size v outRel overflow = some (rel, false)) :
    overflow = false ∧ rel = outRel ++ decoded v ∧ 0 ∉ decoded v := by
  fun_induction subpathLoop size v outRel overflow with
  | case1 outRel overflow =>
      cases done
      simp [decoded]
  | case2 outRel overflow rest =>
      cases done
      simp [decoded]
  | case3 => cases done
  | case4 outRel overflow ch rest more byte full ih => cases (ih done).1
  | case5 outRel overflow ch rest more byte room ih =>
      obtain ⟨whole, rfl, noNul⟩ := ih done
      rw [decoded, if_neg more]
      refine ⟨whole, by rw [List.append_assoc, List.singleton_append], ?_⟩
      exact List.not_mem_cons_of_ne_of_not_mem (Ne.symm byte) noNul

theorem cut_slash {part rest : Text} {b : UInt8} (cut : part.dropWhile (· ≠ slash) = b :: rest) :
    part = part.takeWhile (· ≠ slash) ++ slash :: rest := by
  have stop : b = slash := by
    have head := List.head?_dropWhile_not (· ≠ slash) part
    rw [cut] at head
    simpa using head
  conv_lhs => rw [← List.takeWhile_append_dropWhile (p := (· ≠ slash)) (l := part), cut, stop]

theorem usbRelativePathValid_components {part : Text} (valid : usbRelativePathValid part = true) :
    ∀ c ∈ part.splitOn slash, c ≠ dot ∧ c ≠ dotdot := by
  have free : ∀ part : Text, slash ∉ part.takeWhile (· ≠ slash) := by
    intro part inside
    have other := List.mem_takeWhile_imp inside
    simp at other
  fun_induction usbRelativePathValid part with
  | case1 =>
      rw [List.splitOn_nil]
      decide
  | case2 => cases valid
  | case3 part some other cut =>
      have whole : part.takeWhile (· ≠ slash) = part := by
        have parts : part.takeWhile (· ≠ slash) ++ part.dropWhile (· ≠ slash) = part :=
          List.takeWhile_append_dropWhile
        rw [cut, List.append_nil] at parts
        exact parts
      rw [List.splitOn_eq_singleton (whole ▸ free part)]
      rw [whole] at other
      simpa using not_or.mp other
  | case4 part some other b rest cut ih =>
      rw [cut_slash cut, List.splitOn_append_cons_self_of_not_mem (free part)]
      exact List.forall_mem_cons.mpr ⟨not_or.mp other, ih valid⟩

theorem usbSubpath_confined {path rel full : Text} {size fullSize : Nat}
    (accepted : usbSubpath path size fullSize = some (rel, full)) :
    rel = ((pathValue path).map decoded).getD [] ∧ Confined rel ∧ full = usbFullPath rel := by
  rw [usbSubpath] at accepted
  split at accepted
  case h_1 => cases accepted
  case h_2 found overflow loop =>
    split at accepted
    case isTrue => cases accepted
    case isFalse sound =>
      split at accepted
      case isTrue => cases accepted
      case isFalse =>
        cases accepted
        simp only [not_or, Bool.not_eq_true, Bool.not_eq_false] at sound
        obtain ⟨rfl, noBackslash, relative, valid⟩ := sound
        have value : rel = ((pathValue path).map decoded).getD [] ∧ 0 ∉ rel := by
          cases given : pathValue path with
          | none =>
              rw [given] at loop
              cases loop
              exact ⟨rfl, List.not_mem_nil⟩
          | some v =>
              rw [given] at loop
              obtain ⟨-, rfl, noNul⟩ := subpathLoop_decoded loop
              exact ⟨rfl, noNul⟩
        exact ⟨value.1,
          ⟨value.2, noBackslash, relative, usbRelativePathValid_components valid⟩, rfl⟩

/-! ### The walk -/

theorem component_free {s c : Text} (inside : c ∈ s.splitOn slash) : slash ∉ c := by
  induction s generalizing c with
  | nil =>
      rw [List.splitOn_nil, List.mem_singleton] at inside
      rw [inside]
      exact List.not_mem_nil
  | cons b s ih =>
      rw [List.splitOn_cons_eq_if_modifyHead] at inside
      split at inside
      case isTrue =>
        obtain rfl | inside := List.mem_cons.mp inside
        · exact List.not_mem_nil
        · exact ih inside
      case isFalse other =>
        obtain ⟨head, tail, parts⟩ := List.exists_cons_of_ne_nil (List.splitOn_ne_nil slash s)
        rw [parts] at inside ih
        obtain rfl | inside := List.mem_cons.mp inside
        · refine List.not_mem_cons_of_ne_of_not_mem (fun same => other ?_) (ih List.mem_cons_self)
          rw [same, beq_self_eq_true]
        · exact ih (List.mem_cons_of_mem _ inside)

theorem base_component (rel : Text) : rel.rtakeWhile (· ≠ slash) ∈ rel.splitOn slash := by
  have parts : rel.rdropWhile (· ≠ slash) ++ rel.rtakeWhile (· ≠ slash) = rel :=
    List.rdropWhile_append_rtakeWhile
  have free : slash ∉ rel.rtakeWhile (· ≠ slash) := fun inside => by
    have other := List.mem_rtakeWhile_imp inside
    simp at other
  by_cases whole : rel.rdropWhile (· ≠ slash) = []
  · rw [whole, List.nil_append] at parts
    rw [parts] at free ⊢
    rw [List.splitOn_eq_singleton free]
    exact List.mem_singleton_self _
  · have last := List.rdropWhile_last_not (· ≠ slash) rel whole
    have front := List.dropLast_concat_getLast whole
    rw [decide_eq_true_eq, not_not] at last
    rw [last] at front
    generalize rel.rtakeWhile (· ≠ slash) = base at parts free
    rw [← parts, ← front, List.append_assoc, List.singleton_append, List.splitOn_append_cons_self,
      List.splitOn_eq_singleton free]
    exact List.mem_append_right _ (List.mem_singleton_self _)

section Walks
variable {drive}

theorem Drive.openat_reached {fd n : Node} {name : Text} {directory : Bool}
    (reached : drive.Reached fd) (free : slash ∉ name) (notDot : name ≠ dot)
    (notDotdot : name ≠ dotdot) (found : drive.openat fd name directory = some n) :
    drive.Reached n := by
  rw [Drive.openat, if_neg free, if_neg notDot, if_neg notDotdot] at found
  split at found
  case isTrue => cases found
  case isFalse =>
    obtain ⟨entry, admitted⟩ := Option.filter_eq_some_iff.mp found
    refine .child reached free notDot notDotdot entry ?_
    exact of_decide_eq_true (Bool.and_eq_true_iff.mp admitted).1

theorem Drive.openat_directory {fd n : Node} {name : Text}
    (found : drive.openat fd name true = some n) : drive.kind n = .directory := by
  have admitted := (Option.filter_eq_some_iff.mp found).2
  simpa [Drive.admits] using (Bool.and_eq_true_iff.mp admitted).2

/-- Every file opened lies on the drive, and a descriptor is that of a directory. -/
structure Walk.Inside (walk : Walk Node) (drive : Drive Node) : Prop where
  opened : ∀ n ∈ walk.opened, drive.Reached n
  directory : ∀ n ∈ walk.fd, drive.Reached n ∧ drive.kind n = .directory

theorem usbOpenLoop_inside {fd : Node} {opened : List Node} {parts : List Text}
    (free : ∀ part ∈ parts, slash ∉ part) (reached : drive.Reached fd)
    (directory : drive.kind fd = .directory) (inside : ∀ n ∈ opened, drive.Reached n) :
    (usbOpenLoop drive fd opened parts).Inside drive := by
  induction parts generalizing fd opened with
  | nil =>
      refine ⟨inside, fun n same => ?_⟩
      obtain rfl := Option.some.inj same
      exact ⟨reached, directory⟩
  | cons part parts ih =>
      obtain ⟨partFree, free⟩ := List.forall_mem_cons.mp free
      rw [usbOpenLoop]
      split
      case isTrue => exact ih free reached directory inside
      case isFalse notDot =>
        split
        case isTrue => exact ⟨inside, by simp⟩
        case isFalse notDotdot =>
          split
          case h_1 => exact ⟨inside, by simp⟩
          case h_2 next found =>
            have child := Drive.openat_reached reached partFree notDot notDotdot found
            exact ih free child (Drive.openat_directory found)
              (List.forall_mem_cons.mpr ⟨child, inside⟩)

theorem usbOpenDir_inside (drive : Drive Node) (rel : Text) :
    (usbOpenDir drive rel).Inside drive := by
  rw [usbOpenDir]
  split
  case h_1 => exact ⟨by simp, by simp⟩
  case h_2 fd found =>
    obtain ⟨mount, admitted⟩ := Option.filter_eq_some_iff.mp found
    have reached : drive.Reached fd := .mount mount
    have directory : drive.kind fd = .directory := by
      simpa [Drive.admits] using (Bool.and_eq_true_iff.mp admitted).2
    have inside : ∀ n ∈ [fd], drive.Reached n := List.forall_mem_singleton.mpr reached
    have free : ∀ part ∈ usbParts rel, slash ∉ part := fun part member =>
      component_free (List.mem_of_mem_filter member)
    split
    case isTrue =>
      refine ⟨inside, fun n same => ?_⟩
      obtain rfl := Option.some.inj same
      exact ⟨reached, directory⟩
    case isFalse =>
      split
      case isTrue => exact ⟨inside, by simp⟩
      case isFalse => exact usbOpenLoop_inside free reached directory inside

theorem usbOpenFile_inside (drive : Drive Node) (rel : Text) :
    (usbRelativePathValid rel = true → ∀ n ∈ (usbOpenFile drive rel).opened, drive.Reached n) ∧
      ∀ n ∈ (usbOpenFile drive rel).fd, drive.Reached n ∧ drive.kind n = .regular := by
  rw [usbOpenFile]
  split
  case isTrue => exact ⟨by simp, by simp⟩
  case isFalse =>
    have base := base_component rel
    have inside := usbOpenDir_inside drive (rel.rdropWhile (· ≠ slash)).dropLast
    generalize usbOpenDir drive (rel.rdropWhile (· ≠ slash)).dropLast = dir at inside
    dsimp only
    split
    case h_1 failed => exact ⟨fun _ => inside.opened, by simp [failed]⟩
    case h_2 dirfd open_ =>
      obtain ⟨reached, directory⟩ := inside.directory dirfd open_
      split
      case isTrue => exact ⟨fun _ => inside.opened, by simp⟩
      case isFalse some =>
        split
        case h_1 => exact ⟨fun _ => inside.opened, by simp⟩
        case h_2 fd found =>
          constructor
          · intro valid
            obtain ⟨notDot, notDotdot⟩ := usbRelativePathValid_components valid _ base
            exact List.forall_mem_cons.mpr
              ⟨Drive.openat_reached reached (component_free base) notDot notDotdot found,
                inside.opened⟩
          · intro n kept
            dsimp only at kept
            split at kept
            case isFalse => cases kept
            case isTrue regular =>
              obtain rfl := Option.some.inj kept
              refine ⟨?_, regular⟩
              refine Drive.openat_reached reached (component_free base) ?_ ?_ found
              · intro same
                rw [same] at found
                have self := (Option.filter_eq_some_iff.mp found).1
                rw [if_neg (by decide), if_neg (by decide), if_pos rfl] at self
                obtain rfl := Option.some.inj self
                rw [directory] at regular
                cases regular
              · intro same
                rw [same] at found
                have up := (Option.filter_eq_some_iff.mp found).1
                rw [if_neg (by decide), if_neg (by decide), if_neg (by decide), if_pos rfl] at up
                obtain rfl := Option.some.inj up
                rw [drive.parent_directory] at regular
                cases regular

end Walks

/--
An accepted path is decoded, uncut and confined. Every file opened for a directory, and for a
file whose path passed the check, is reached by child lookups that follow no link; so is
every file that is kept open.
-/
theorem usbBrowse_law (drive : Drive Node) :
    (∀ path rel full size fullSize, usbSubpath path size fullSize = some (rel, full) →
      rel = ((pathValue path).map decoded).getD [] ∧ Confined rel ∧ full = usbFullPath rel) ∧
    (∀ rel, ∀ n ∈ (usbOpenDir drive rel).opened, drive.Reached n) ∧
    ∀ rel,
      (usbRelativePathValid rel = true →
        ∀ n ∈ (usbOpenFile drive rel).opened, drive.Reached n) ∧
      ∀ n ∈ (usbOpenFile drive rel).fd, drive.Reached n ∧ drive.kind n = .regular :=
  ⟨fun _ _ _ _ _ => usbSubpath_confined, fun rel => (usbOpenDir_inside drive rel).opened,
    usbOpenFile_inside drive⟩

def emptyDrive : Drive Bool where
  kind _ := .directory
  entry _ _ := none
  parent _ := false
  follow _ _ := none
  mount := some true
  parent_directory _ := rfl

/-- A file's path that climbs opens the directory above the mount point for a moment. -/
theorem usbOpenFile_climbs :
    false ∈ (usbOpenFile emptyDrive dotdot).opened ∧ ¬ emptyDrive.Reached false := by
  refine ⟨by decide +kernel, fun reached => ?_⟩
  cases reached with
  | mount same => cases same
  | child _ _ _ _ entry _ => cases entry

end LibreEcho.Storage
