import LibreEcho.Lib.ByteText
import LibreEcho.Lib.JsonGrammar

/-!
The refusal that `update_failure_reason` takes from the captured error output.

The scan keeps the last six bytes behind the last token, so it meets every mark: a mark begins with
a byte that no token and no other place of a mark has.
-/
namespace LibreEcho.Update
open JsonGrammar ByteText

def errorMark : Bytes := ascii "ERROR:"

def isTokenByte (c : UInt8) : Bool :=
  (0x61 ≤ c && c ≤ 0x7A) || (0x30 ≤ c && c ≤ 0x39) || c == 0x5F || c == 0x2D

/-- The locals of the loop and the output string; `none` is an output that is not written. -/
structure ReasonScan where
  out : Option Bytes
  token : Bytes
  window : Bytes
  collecting : Bool

def report (cap : Nat) (token : Bytes) : Option Bytes :=
  if cap = 0 then none else some (token.take (cap - 1))

/-- The window slides by one byte; a mark in it starts a token. -/
def slide (s : ReasonScan) (c : UInt8) : ReasonScan :=
  let window := if s.window.length < 6 then s.window ++ [c] else s.window.tail ++ [c]
  if window.length = 6 ∧ window = errorMark then
    { s with token := [], window := [], collecting := true }
  else { s with window }

def scanByte (cap : Nat) (s : ReasonScan) (c : UInt8) : ReasonScan :=
  if s.collecting then
    if isTokenByte c then
      if s.token.length + 1 < 64 then { s with token := s.token ++ [c] } else s
    else slide { s with out := report cap s.token, token := [], collecting := false } c
  else slide s c

/-- The reads up to the end of the file or an error: what a read returns is never empty. -/
def scanReads (cap : Nat) : List Bytes → ReasonScan → ReasonScan
  | [], s => s
  | [] :: _, s => s
  | read :: reads, s => scanReads cap reads (read.foldl (scanByte cap) s)

def ReasonScan.begin (cap : Nat) : ReasonScan where
  out := if cap = 0 then none else some []
  token := []
  window := []
  collecting := false

def updateFailureReason (rewound : Bool) (reads : List Bytes) (cap : Nat) : Option Bytes :=
  if rewound then
    let s := scanReads cap reads (.begin cap)
    if s.collecting then report cap s.token else s.out
  else (ReasonScan.begin cap).out

/-! ### Marks -/

def LastMark (content back : Bytes) : Prop :=
  ∃ front, content = front ++ errorMark ++ back ∧ ¬ errorMark <:+: (errorMark ++ back).tail

/-- The token at the start of a text, as far as the buffer keeps it. -/
def tokenOf (back : Bytes) : Bytes :=
  (back.takeWhile isTokenByte).take 63

theorem LastMark.unique {content back back' : Bytes} (last : LastMark content back)
    (last' : LastMark content back') : back = back' := by
  -- Of two marks one is not behind the other, so they are the same.
  have lower : ∀ {front front' back back' : Bytes}, front ++ errorMark ++ back =
      front' ++ errorMark ++ back' → ¬ errorMark <:+: (errorMark ++ back).tail →
      front'.length ≤ front.length := by
    intro front front' back back' same quiet
    by_contra more
    rw [List.append_assoc, List.append_assoc] at same
    obtain ⟨step, rfl, rest⟩ | ⟨step, rfl, -⟩ := List.append_eq_append_iff.mp same
    · cases step with
      | nil => exact more (by simp)
      | cons c step =>
          refine quiet ?_
          rw [rest, List.cons_append, List.tail_cons]
          exact ⟨step, back', by rw [List.append_assoc]⟩
    · exact more (by rw [List.length_append]; omega)
  obtain ⟨front, same, quiet⟩ := last
  obtain ⟨front', same', quiet'⟩ := last'
  have equal := same.symm.trans same'
  have length : front.length = front'.length :=
    Nat.le_antisymm (lower equal.symm quiet') (lower equal quiet)
  rw [List.append_assoc, List.append_assoc] at equal
  exact List.append_cancel_left (List.append_inj_right equal length)

theorem quiet_append {s rest : Bytes} (free : ∀ c ∈ s, c ≠ 0x45) (quiet : ¬ errorMark <:+: rest) :
    ¬ errorMark <:+: s ++ rest := by
  induction s with
  | nil => exact quiet
  | cons c s ih =>
      obtain ⟨here, later⟩ := List.forall_mem_cons.mp free
      intro mark
      rcases List.infix_cons_iff.mp mark with ⟨tail, start⟩ | inside
      · exact here (List.head_eq_of_cons_eq start).symm
      · exact ih later inside

theorem token_free {run : Bytes} (run_token : ∀ c ∈ run, isTokenByte c = true) :
    ∀ c ∈ run, c ≠ 0x45 := by
  rintro c inside rfl
  exact absurd (run_token _ inside) (by decide)

theorem lastMark_behind {front run rest : Bytes} (run_token : ∀ c ∈ run, isTokenByte c = true)
    (quiet : ¬ errorMark <:+: rest) : LastMark (front ++ errorMark ++ run ++ rest) (run ++ rest) := by
  refine ⟨front, by rw [List.append_assoc], ?_⟩
  have shape : (errorMark ++ (run ++ rest)).tail = (errorMark.tail ++ run) ++ rest := by
    rw [List.append_assoc]
    rfl
  rw [shape]
  refine quiet_append (fun c inside => ?_) quiet
  rcases List.mem_append.mp inside with mark | run
  · exact (by decide : ∀ c ∈ errorMark.tail, c ≠ 0x45) c mark
  · exact token_free run_token c run

/-! ### The window -/

def lastSix (s : Bytes) : Bytes :=
  s.drop (s.length - 6)

theorem lastSix_concat (s : Bytes) (c : UInt8) :
    (if (lastSix s).length < 6 then lastSix s ++ [c] else (lastSix s).tail ++ [c]) =
      lastSix (s ++ [c]) := by
  rw [lastSix, lastSix, List.length_drop, List.length_append, List.length_singleton]
  split
  case isTrue short =>
    have first : s.length - 6 = 0 := by omega
    have first' : s.length + 1 - 6 = 0 := by omega
    rw [first, first', List.drop_zero, List.drop_zero]
  case isFalse full =>
    have next : s.length + 1 - 6 = s.length - 6 + 1 := by omega
    rw [List.tail_drop, next, List.drop_append_of_le_length (by omega)]

theorem infix_concat {rest : Bytes} {c : UInt8} (quiet : ¬ errorMark <:+: rest) :
    errorMark <:+: rest ++ [c] ↔ lastSix (rest ++ [c]) = errorMark := by
  rw [List.infix_concat_iff, or_iff_left quiet, List.suffix_iff_eq_drop, lastSix, eq_comm]
  rfl

/-! ### The scan -/

/-- What the scan knows of the bytes it has seen. -/
inductive Scanned (cap : Nat) (seen : Bytes) (s : ReasonScan) : Prop where
  | fresh : s.collecting = false → ¬ errorMark <:+: seen → s.window = lastSix seen →
      s.out = report cap [] → Scanned cap seen s
  | behind {front run rest : Bytes} : s.collecting = false →
      seen = front ++ errorMark ++ run ++ rest → (∀ c ∈ run, isTokenByte c = true) →
      (∀ c ∈ rest.head?, isTokenByte c = false) → rest ≠ [] → ¬ errorMark <:+: rest →
      s.window = lastSix rest → s.out = report cap (run.take 63) → Scanned cap seen s
  | collecting {front run : Bytes} : s.collecting = true → seen = front ++ errorMark ++ run →
      (∀ c ∈ run, isTokenByte c = true) → s.token = run.take 63 → s.window = [] →
      Scanned cap seen s

variable {cap : Nat} {seen : Bytes} {s : ReasonScan}

theorem slide_window {rest : Bytes} (window : s.window = lastSix rest) (c : UInt8) :
    slide s c = if lastSix (rest ++ [c]) = errorMark then
        { s with token := [], window := [], collecting := true }
      else { s with window := lastSix (rest ++ [c]) } := by
  rw [slide, window, lastSix_concat]
  by_cases mark : lastSix (rest ++ [c]) = errorMark
  · rw [if_pos mark, if_pos ⟨by rw [mark]; rfl, mark⟩]
  · rw [if_neg mark, if_neg fun h => mark h.2]

theorem lastSix_mark {rest : Bytes} (mark : lastSix rest = errorMark) :
    ∃ front, rest = front ++ errorMark :=
  ⟨rest.take (rest.length - 6), by rw [← mark, lastSix, List.take_append_drop]⟩

theorem take_concat_short {run : Bytes} {c : UInt8} (short : (run.take 63).length + 1 < 64) :
    run.take 63 ++ [c] = (run ++ [c]).take 63 := by
  rw [List.length_take] at short
  have length : run.length < 63 := by omega
  rw [List.take_of_length_le (by omega), List.take_of_length_le (by simp; omega)]

theorem take_concat_full {run : Bytes} {c : UInt8} (full : ¬ (run.take 63).length + 1 < 64) :
    run.take 63 = (run ++ [c]).take 63 := by
  rw [List.length_take] at full
  rw [List.take_append_of_le_length (by omega)]

theorem scanByte_scanned (scanned : Scanned cap seen s) (c : UInt8) :
    Scanned cap (seen ++ [c]) (scanByte cap s c) := by
  cases scanned with
  | fresh idle quiet window out =>
      rw [scanByte, idle, if_neg Bool.false_ne_true, slide_window window]
      split
      case isTrue mark =>
        obtain ⟨front, whole⟩ := lastSix_mark mark
        have later : seen ++ [c] = front ++ errorMark ++ [] := by
          rw [whole, List.append_nil]
        exact .collecting rfl later (by rintro _ ⟨⟩) rfl rfl
      case isFalse other => exact .fresh idle (fun mark => other ((infix_concat quiet).mp mark)) rfl out
  | @behind front run rest idle whole run_token stop filled quiet window out =>
      rw [scanByte, idle, if_neg Bool.false_ne_true, slide_window window]
      split
      case isTrue mark =>
        obtain ⟨between, split⟩ := lastSix_mark mark
        have later : seen ++ [c] = front ++ errorMark ++ run ++ between ++ errorMark ++ [] := by
          rw [whole, List.append_assoc _ rest, split]
          simp only [List.append_assoc, List.append_nil]
        exact .collecting rfl later (by rintro _ ⟨⟩) rfl rfl
      case isFalse other =>
        have later : seen ++ [c] = front ++ errorMark ++ run ++ (rest ++ [c]) := by
          rw [whole]
          simp only [List.append_assoc]
        refine .behind idle later run_token ?_ (by simp)
          (fun mark => other ((infix_concat quiet).mp mark)) rfl out
        rwa [List.head?_append_of_ne_nil _ filled]
  | @collecting front run busy whole run_token token window =>
      rw [scanByte, busy, if_pos rfl]
      split
      case isTrue more =>
        have tokens : ∀ b ∈ run ++ [c], isTokenByte b = true := by
          intro b inside
          rcases List.mem_append.mp inside with old | new
          · exact run_token b old
          · rwa [List.mem_singleton.mp new]
        have later : seen ++ [c] = front ++ errorMark ++ (run ++ [c]) := by
          rw [whole, List.append_assoc]
        rw [token]
        split
        case isTrue short => exact .collecting rfl later tokens (take_concat_short short) window
        case isFalse full =>
          exact .collecting busy later tokens (token.trans (take_concat_full full)) window
      case isFalse stop =>
        have empty : (ReasonScan.mk (report cap s.token) [] s.window false).window = lastSix [] := window
        have one : lastSix [c] ≠ errorMark := fun mark => absurd (congrArg List.length mark) (by rintro ⟨⟩)
        rw [slide_window empty, List.nil_append, if_neg one]
        refine .behind rfl (by rw [whole]) run_token ?_ (by simp) ?_ rfl
          (congrArg (report cap) token)
        · simpa using stop
        · intro mark
          have short : errorMark.length ≤ 1 := mark.length_le
          exact absurd short (by decide)

theorem scanBytes_scanned (scanned : Scanned cap seen s) (bytes : Bytes) :
    Scanned cap (seen ++ bytes) (bytes.foldl (scanByte cap) s) := by
  induction bytes generalizing seen s with
  | nil => rwa [List.append_nil]
  | cons c bytes ih =>
      rw [← List.singleton_append, ← List.append_assoc]
      exact ih (scanByte_scanned scanned c)

def readContent (reads : List Bytes) : Bytes :=
  (reads.takeWhile (· ≠ [])).flatten

theorem scanReads_scanned (scanned : Scanned cap seen s) (reads : List Bytes) :
    Scanned cap (seen ++ readContent reads) (scanReads cap reads s) := by
  induction reads generalizing seen s with
  | nil => rwa [readContent, List.takeWhile_nil, List.flatten_nil, List.append_nil]
  | cons read reads ih =>
      cases read with
      | nil => rwa [readContent, List.takeWhile_cons_of_neg (by simp), List.flatten_nil, List.append_nil]
      | cons c read =>
          have content : readContent ((c :: read) :: reads) = c :: read ++ readContent reads := by
            rw [readContent, List.takeWhile_cons_of_pos (by simp), List.flatten_cons]
            rfl
          rw [content, ← List.append_assoc, scanReads]
          · exact ih (scanBytes_scanned scanned (c :: read))
          · exact nofun

/-! ### The reason -/

theorem tokenOf_run {run rest : Bytes} (run_token : ∀ c ∈ run, isTokenByte c = true)
    (stop : ∀ c ∈ rest.head?, isTokenByte c = false) : tokenOf (run ++ rest) = run.take 63 := by
  have none : rest.takeWhile isTokenByte = [] := by
    cases rest with
    | nil => rfl
    | cons c rest => exact List.takeWhile_cons_of_neg (by rw [stop c rfl]; exact Bool.false_ne_true)
  rw [tokenOf, List.takeWhile_append_of_pos run_token, none, List.append_nil]

theorem Scanned.reason (scanned : Scanned cap seen s) :
    (∀ back, LastMark seen back →
      (if s.collecting then report cap s.token else s.out) = report cap (tokenOf back)) ∧
    (¬ errorMark <:+: seen → (if s.collecting then report cap s.token else s.out) = report cap []) := by
  cases scanned with
  | fresh idle quiet window out =>
      rw [idle, if_neg Bool.false_ne_true]
      exact ⟨fun back ⟨front, whole, _⟩ => absurd ⟨front, back, whole.symm⟩ quiet, fun _ => out⟩
  | @behind front run rest idle whole run_token stop filled quiet window out =>
      rw [idle, if_neg Bool.false_ne_true, out, whole]
      refine ⟨fun back last => ?_, fun none => ?_⟩
      · rw [last.unique (lastMark_behind run_token quiet), tokenOf_run run_token stop]
      · exact absurd ⟨front, run ++ rest, by simp only [List.append_assoc]⟩ none
  | @collecting front run busy whole run_token token window =>
      rw [busy, if_pos rfl, token, whole]
      refine ⟨fun back last => ?_, fun none => absurd ⟨front, run, rfl⟩ none⟩
      have own := @lastMark_behind front run [] run_token (by decide)
      rw [List.append_nil] at own
      rw [last.unique own, tokenOf_run run_token (by simp)]

theorem isPlain_token {c : UInt8} (token : isTokenByte c = true) : isPlain c = true := by
  have all : ∀ n : Fin 256, isTokenByte (UInt8.ofNat n.val) = true →
      isPlain (UInt8.ofNat n.val) = true := by decide +kernel
  have same := all ⟨c.toNat, c.toNat_lt⟩
  rw [UInt8.ofNat_toNat] at same
  exact same token

theorem Scanned.plain (scanned : Scanned cap seen s) : ∃ token, (∀ c ∈ token, isTokenByte c = true) ∧
    (if s.collecting then report cap s.token else s.out) = report cap token := by
  cases scanned with
  | fresh idle _ _ out =>
      rw [idle, if_neg Bool.false_ne_true]
      exact ⟨[], (by rintro _ ⟨⟩), out⟩
  | @behind _ run _ idle _ run_token _ _ _ _ out =>
      rw [idle, if_neg Bool.false_ne_true]
      exact ⟨run.take 63, fun c inside => run_token c (List.mem_of_mem_take inside), out⟩
  | @collecting _ run busy _ run_token token _ =>
      rw [busy, if_pos rfl]
      exact ⟨run.take 63, fun c inside => run_token c (List.mem_of_mem_take inside),
        congrArg (report cap) token⟩

/-- The reason is the token behind the last mark, as far as the buffers hold it, or empty. -/
theorem updateFailureReason_last (reads : List Bytes) (cap : Nat) :
    (∀ back, LastMark (readContent reads) back →
      updateFailureReason true reads cap = report cap (tokenOf back)) ∧
    (¬ errorMark <:+: readContent reads → updateFailureReason true reads cap = report cap []) ∧
    ∀ text ∈ updateFailureReason true reads cap, ∀ c ∈ text, isPlain c = true := by
  have begun : Scanned cap [] (.begin cap) := .fresh rfl (by decide) rfl (by
    rw [ReasonScan.begin, report, List.take_nil])
  have scanned := scanReads_scanned begun reads
  rw [List.nil_append] at scanned
  obtain ⟨found, absent⟩ := scanned.reason
  refine ⟨found, absent, fun text out c inside => ?_⟩
  obtain ⟨token, plain, same⟩ := scanned.plain
  rw [updateFailureReason, if_pos rfl] at out
  dsimp only at out
  rw [same, report] at out
  split at out
  · cases out
  · cases out
    exact isPlain_token (plain c (List.mem_of_mem_take inside))

end LibreEcho.Update
