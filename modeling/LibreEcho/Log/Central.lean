import LibreEcho.Lib.JsonWriting
import LibreEcho.Lib.RingBuffer
import LibreEcho.Lib.Rotation
import LibreEcho.Lib.Runs

/-!
The central log: `le_log` of `log.c` sends a line, `logd.c` keeps the lines in files that it
rotates, and `read_central_logs` of `api.c` reads the newest ones back.

The connections to logd hold, and its writes and renames succeed.
-/
namespace LibreEcho.Log
open JsonGrammar ByteText
open RingBuffer (Ring Retains)

abbrev leLogMsgMax : Nat := 1024
abbrev leLogdMsgMax : Nat := 1024
abbrev leLogdMaxSize : Nat := 512 * 1024
abbrev leLogdMaxFiles : Nat := 3
abbrev leMaxLogs : Nat := 128

abbrev newline : UInt8 := 0x0a

/-! ### Writing a line -/

inductive Level where
  | debug | info | warning | error

def Level.rank : Level → Nat
  | .debug => 0
  | .info => 1
  | .warning => 2
  | .error => 3

def levelStr : Level → Bytes
  | .debug => ascii "DEBUG"
  | .info => ascii "INFO"
  | .warning => ascii "WARN"
  | .error => ascii "ERROR"

/-- A call of `le_log` in a service: its clocks, and its message as the format gives it. -/
structure Call where
  threshold : Level
  level : Level
  seconds : Nat
  bootSeconds : Nat
  ident : Bytes
  named : Chars ident
  text : Bytes
  ended : 0 ∉ text

def escapeByte (c : UInt8) : Bytes :=
  if c = quote ∨ c = backslash then [backslash, c]
  else if c = newline then [backslash, letterN]
  else if c = 0x0d then [backslash, letterR]
  else if c = 0x09 then [backslash, letterT]
  else if c < 0x20 ∨ c = 0x7f then
    [backslash, letterU, zero, zero, hexDigit (c.toNat / 16), hexDigit (c.toNat % 16)]
  else [c]

def escapeJson (size : Nat) : Bytes → Bytes → Bytes
  | [], out => out
  | c :: rest, out =>
      if out.length + 7 < size then escapeJson size rest (out ++ escapeByte c) else out

namespace Call

def msg (c : Call) : Bytes :=
  c.text.take (leLogMsgMax - 1)

def escaped (c : Call) : Bytes :=
  escapeJson (leLogMsgMax * 6 + 1) c.msg []

def fields (c : Call) : List (Bytes × Bytes) :=
  [(ascii "ts", decimal c.seconds), (ascii "boot_seconds", decimal c.bootSeconds),
    (ascii "level", quotedText (levelStr c.level)), (ascii "service", quotedText c.ident),
    (ascii "msg", quotedText c.escaped)]

def json (c : Call) : Bytes :=
  writtenObject c.fields

def line (c : Call) : Bytes :=
  c.json ++ [newline]

end Call

def leLog (c : Call) : Option Bytes :=
  if c.level.rank < c.threshold.rank then none
  else if c.line.length < leLogdMsgMax then some c.line
  else none

/-! ### Keeping the lines -/

/-- `system.log` has the number 0, and `system.log.1` the number 1. -/
abbrev Files := Nat → Option Bytes

def received (datagram : Bytes) : Bytes :=
  let buf := datagram.take (leLogdMsgMax - 1)
  if buf.getLast? ≠ some newline ∧ buf.length < leLogdMsgMax - 1 then buf ++ [newline] else buf

def rotateLogs (files : Files) : Files :=
  Rotation.moveOn leLogdMaxFiles (Function.update files leLogdMaxFiles none)

def openLogFile (files : Files) : Files :=
  Function.update files 0 (some ((files 0).getD []))

def store (files : Files) (buf : Bytes) : Files :=
  let file := (files 0).getD [] ++ buf
  let files := Function.update files 0 (some file)
  if leLogdMaxSize < file.length then openLogFile (rotateLogs files) else files

structure Central where
  /-- The datagrams on their way. -/
  waiting : List Bytes := []
  files : Files := openLogFile fun _ => none

inductive Event where
  | log (c : Call)
  | receive

def Central.step (s : Central) : Event → Central
  | .log c =>
      match leLog c with
      | none => s
      | some datagram => { s with waiting := s.waiting ++ [datagram] }
  | .receive =>
      match s.waiting with
      | [] => s
      | datagram :: waiting => { waiting, files := store s.files (received datagram) }

/-! ### Reading them back -/

def fgets : Nat → Bytes → Bytes × Bytes
  | 0, file => ([], file)
  | _ + 1, [] => ([], [])
  | room + 1, c :: file =>
      if c = newline then ([c], file) else (c :: (fgets room file).1, (fgets room file).2)

def unended (line : Bytes) : Bytes :=
  let line := line.takeWhile (· ≠ 0)
  if line.getLast? = some newline then line.dropLast else line

def readLoop : Nat → Bytes → Ring Bytes leMaxLogs → Ring Bytes leMaxLogs
  | 0, _, ring => ring
  | rounds + 1, file, ring =>
      let got := fgets (leLogdMsgMax - 1) file
      if got.1 = [] then ring else readLoop rounds got.2 (ring.push (unended got.1))

def readCentralLogs (files : Files) : List Bytes :=
  match files 0 with
  | none => []
  | some file =>
      let ring := readLoop (file.length + 1) file ⟨fun _ => [], 0, 0, Nat.zero_le _⟩
      ring.slice ring.first ring.count

/-! ### What a line says -/

theorem spells_delete : Spells [backslash, letterU, zero, zero, 0x37, 0x66] [0x7f] := by
  have quad : Quad [zero, zero, 0x37, 0x66] (Char.ofNat 0x7f).toNat := ⟨rfl, by decide, rfl⟩
  exact .unicode quad .nil

theorem escapeByte_spells (c : UInt8) : Spells (escapeByte c) [c] := by
  unfold escapeByte
  split_ifs with marked line ret tab coded
  · rcases marked with rfl | rfl
    · exact .escape (by decide) .nil
    · exact .escape (by decide) .nil
  · subst line
    exact .escape (by decide) .nil
  · subst ret
    exact .escape (by decide) .nil
  · subst tab
    exact .escape (by decide) .nil
  · rcases coded with control | rfl
    · exact spells_control control
    · exact spells_delete
  · obtain ⟨high, -⟩ := not_or.mp coded
    obtain ⟨unquoted, unslashed⟩ := not_or.mp marked
    refine .plain ?_ .nil
    simp [isPlain, UInt8.not_lt.mp high, unquoted, unslashed]

theorem escapeByte_length (c : UInt8) : (escapeByte c).length ≤ 6 := by
  unfold escapeByte
  split_ifs <;> simp only [List.length_cons, List.length_nil] <;> omega

theorem spells_escaped (text : Bytes) : Spells (text.flatMap escapeByte) text := by
  induction text with
  | nil => exact .nil
  | cons c text ih => exact spells_append (escapeByte_spells c) ih

/-- A buffer of six bytes for each byte of the text holds all of it. -/
theorem escapeJson_fits {size : Nat} (text : Bytes) {out : Bytes}
    (fits : out.length + 6 * text.length + 1 < size) :
    escapeJson size text out = out ++ text.flatMap escapeByte := by
  induction text generalizing out with
  | nil => exact (List.append_nil out).symm
  | cons c text ih =>
      have short := escapeByte_length c
      rw [List.length_cons] at fits
      rw [escapeJson, if_pos (by omega), ih, List.flatMap_cons, List.append_assoc]
      rw [List.length_append]
      omega

namespace Call

theorem escaped_spells (c : Call) : Spells c.escaped c.msg := by
  have short : c.msg.length ≤ 1023 := by
    rw [msg, List.length_take]
    exact Nat.min_le_left _ _
  have fits : 0 + 6 * c.msg.length + 1 < 1024 * 6 + 1 := by omega
  rw [escaped, escapeJson_fits c.msg fits, List.nil_append]
  exact spells_escaped c.msg

theorem levelStr_chars (level : Level) : Chars (levelStr level) := by
  cases level <;> exact plain_name (by decide)

/-- The names are those of a log line, and each value is written as JSON. -/
theorem fields_written (c : Call) : ∀ f ∈ c.fields,
    Chars f.1 ∧ Derives .value 0 f.2 ∧ ∀ b ∈ f.2, 0x20 ≤ b := by
  have decimals (n : Nat) : Derives .value 0 (decimal n) ∧ ∀ b ∈ decimal n, 0x20 ≤ b := by
    refine ⟨.number (number_decimal n), fun b member => ?_⟩
    have digit := decimal_isDigit member
    simp only [ByteText.isDigit, Bool.and_eq_true, decide_eq_true_eq] at digit
    exact UInt8.le_trans (by decide) digit.1
  have quoted {t : Bytes} (chars : Chars t) :
      Derives .value 0 (quotedText t) ∧ ∀ b ∈ quotedText t, 0x20 ≤ b := by
    refine ⟨quoted_value chars, List.forall_mem_cons.mpr ⟨by decide, ?_⟩⟩
    exact List.forall_mem_append.mpr ⟨chars_high chars, by decide⟩
  intro f member
  simp only [fields, List.mem_cons, List.not_mem_nil, or_false] at member
  rcases member with rfl | rfl | rfl | rfl | rfl
  · exact ⟨@plain_name (ascii "ts") (by decide), decimals c.seconds⟩
  · exact ⟨@plain_name (ascii "boot_seconds") (by decide), decimals c.bootSeconds⟩
  · exact ⟨@plain_name (ascii "level") (by decide), quoted (levelStr_chars c.level)⟩
  · exact ⟨@plain_name (ascii "service") (by decide), quoted c.named⟩
  · exact ⟨@plain_name (ascii "msg") (by decide), quoted (spells_chars c.escaped_spells)⟩

theorem json_record (c : Call) : Record 0 c.fields c.json :=
  record_written nofun (fun f member => (c.fields_written f member).1)
    fun f member => (c.fields_written f member).2.1

theorem json_high (c : Call) : ∀ b ∈ c.json, 0x20 ≤ b :=
  high_writtenObject (fun f member => chars_high (c.fields_written f member).1)
    fun f member => (c.fields_written f member).2.2

theorem json_free (c : Call) {b : UInt8} (low : b < 0x20) : b ∉ c.json :=
  fun member => absurd (c.json_high b member) (UInt8.not_le.mpr low)

end Call

/-! ### Reading the lines of a file -/

theorem fgets_line {room : Nat} {line : Bytes} (free : newline ∉ line) (fits : line.length < room)
    (file : Bytes) : fgets room (line ++ newline :: file) = (line ++ [newline], file) := by
  induction line generalizing room with
  | nil =>
      obtain ⟨room, rfl⟩ := Nat.exists_eq_succ_of_ne_zero (Nat.ne_of_gt fits)
      rw [List.nil_append, fgets, if_pos rfl]
      rfl
  | cons c line ih =>
      obtain ⟨other, free⟩ := List.ne_and_not_mem_of_not_mem_cons free
      rw [List.length_cons] at fits
      obtain ⟨room, rfl⟩ := Nat.exists_eq_succ_of_ne_zero (Nat.ne_of_gt (Nat.zero_lt_of_lt fits))
      rw [List.cons_append, fgets, if_neg (Ne.symm other), ih free (Nat.lt_of_succ_lt_succ fits)]
      rfl

theorem unended_line {line : Bytes} (free : 0 ∉ line) : unended (line ++ [newline]) = line := by
  have whole : (line ++ [newline]).takeWhile (· ≠ 0) = line ++ [newline] := by
    refine List.takeWhile_eq_self_iff.mpr ?_
    intro b member
    rw [decide_eq_true_eq]
    rintro rfl
    rcases List.mem_append.mp member with inside | last
    · exact free inside
    · exact absurd (List.mem_singleton.mp last) (by decide)
  rw [unended, whole, if_pos List.getLast?_concat, List.dropLast_concat]

def text (calls : List Call) : Bytes :=
  calls.flatMap Call.line

theorem length_text (calls : List Call) : calls.length ≤ (text calls).length := by
  induction calls with
  | nil => exact Nat.zero_le _
  | cons c calls ih =>
      rw [text, List.flatMap_cons, List.length_append, ← text, Call.line, List.length_append]
      simp only [List.length_cons, List.length_nil]
      omega

theorem readLoop_text {calls : List Call} (fits : ∀ c ∈ calls, c.line.length < leLogdMsgMax)
    {rounds : Nat} (enough : calls.length < rounds) (ring : Ring Bytes leMaxLogs) :
    readLoop rounds (text calls) ring = ring.append (calls.map Call.json) := by
  induction calls generalizing rounds ring with
  | nil =>
      obtain ⟨rounds, rfl⟩ := Nat.exists_eq_succ_of_ne_zero (Nat.ne_of_gt enough)
      rfl
  | cons c calls ih =>
      obtain ⟨short, fits⟩ := List.forall_mem_cons.mp fits
      obtain ⟨rounds, rfl⟩ := Nat.exists_eq_succ_of_ne_zero (Nat.ne_of_gt (Nat.zero_lt_of_lt enough))
      rw [Call.line, List.length_append, List.length_singleton] at short
      have file : text (c :: calls) = c.json ++ newline :: text calls := by
        rw [text, List.flatMap_cons, Call.line, List.append_assoc]
        rfl
      have got : fgets (leLogdMsgMax - 1) (c.json ++ newline :: text calls) =
          (c.json ++ [newline], text calls) :=
        fgets_line (c.json_free (by decide)) (by omega) (text calls)
      rw [file, readLoop, got, if_neg (by simp), unended_line (c.json_free (by decide)),
        ih fits (Nat.lt_of_succ_lt_succ enough)]
      rfl

/-- What is read back is the newest lines of the current file, up to the table's size. -/
theorem readCentralLogs_text {calls : List Call} (fits : ∀ c ∈ calls, c.line.length < leLogdMsgMax)
    {files : Files} (current : files 0 = some (text calls)) :
    readCentralLogs files = (calls.map Call.json).drop (calls.length - leMaxLogs) := by
  let empty : Ring Bytes leMaxLogs := ⟨fun _ => [], 0, 0, Nat.zero_le _⟩
  let ring := empty.append (calls.map Call.json)
  have loop : readLoop ((text calls).length + 1) (text calls) empty = ring :=
    readLoop_text fits (Nat.lt_succ_of_le (length_text calls)) empty
  have stop : ring.first + ring.count = 0 + (calls.map Call.json).length :=
    empty.append_stop (calls.map Call.json)
  have count : ring.count = min 128 (0 + (calls.map Call.json).length) :=
    empty.append_count (calls.map Call.json)
  have retains : Retains ring 0 (calls.map Call.json) :=
    (Retains.primeAt empty 0).append (calls.map Call.json)
  rw [List.length_map] at stop count
  have first : ring.first - 0 = calls.length - leMaxLogs := by
    show ring.first - 0 = calls.length - 128
    omega
  have read : readCentralLogs files = ring.slice ring.first ring.count := by
    rw [readCentralLogs, current]
    show (readLoop ((text calls).length + 1) (text calls) empty).slice _ _ = _
    rw [loop]
  rw [read, retains.slice (Nat.le_refl _) (Nat.le_refl _), first, List.take_of_length_le]
  rw [List.length_drop, List.length_map, count]
  show calls.length - (calls.length - 128) ≤ min 128 (0 + calls.length)
  omega

/-! ### The whole way of a line -/

/-- The calls whose lines are sent: those of the wanted level whose line is not too long. -/
def sent (run : List Event) : List Call :=
  run.filterMap fun
    | .log c => if (leLog c).isSome then some c else none
    | .receive => none

/-- What is where: some calls' lines are lost, some are in the files, the newest first, and some
are on their way. -/
structure Places where
  lost : List Call := []
  generations : List (List Call) := [[]]
  waiting : List Call := []

structure Keeps (calls : List Call) (s : Central) (p : Places) : Prop where
  order : calls = p.lost ++ (p.generations.reverse.flatten ++ p.waiting)
  short : ∀ c ∈ calls, c.line.length < leLogdMsgMax
  queue : s.waiting = p.waiting.map Call.line
  files : s.files = Rotation.listed text p.generations
  current : ∃ newest older, p.generations = newest :: older ∧
    (text newest).length ≤ leLogdMaxSize ∧ older.length ≤ leLogdMaxFiles ∧
    (p.lost ≠ [] → older.length = leLogdMaxFiles) ∧
    ∀ g ∈ older, leLogdMaxSize < (text g).length ∧ (text g).length < leLogdMaxSize + leLogdMsgMax

theorem keeps_start : Keeps [] {} {} where
  order := rfl
  short := nofun
  queue := rfl
  files := by
    funext i
    cases i with
    | zero => rfl
    | succ i => rfl
  current := ⟨[], [], rfl, Nat.zero_le _, Nat.zero_le _, fun lost => absurd rfl lost, nofun⟩

theorem leLog_some {c : Call} {datagram : Bytes} (sends : leLog c = some datagram) :
    datagram = c.line ∧ c.line.length < leLogdMsgMax := by
  unfold leLog at sends
  split_ifs at sends with unwanted short
  exact ⟨(Option.some.inj sends).symm, short⟩

theorem received_line {c : Call} (short : c.line.length < leLogdMsgMax) : received c.line = c.line := by
  have whole : c.line.take (leLogdMsgMax - 1) = c.line :=
    List.take_of_length_le (Nat.le_pred_of_lt short)
  have ended : c.line.getLast? = some newline := List.getLast?_concat
  rw [received, whole, if_neg fun open' => open'.1 ended]

theorem flatten_reverse_split {α : Type} (n : Nat) (lists : List (List α)) :
    lists.reverse.flatten = (lists.drop n).reverse.flatten ++ (lists.take n).reverse.flatten := by
  rw [← List.flatten_append, ← List.reverse_append, List.take_append_drop]

/-- What is dropped is lost, and then as many older files are left as there may be. -/
theorem lost_full {α : Type} {n : Nat} {lost newest : List α} {older : List (List α)}
    (full : lost ≠ [] → older.length = n)
    (some : lost ++ ((newest :: older).drop n).reverse.flatten ≠ []) :
    ((newest :: older).take n).length = n := by
  by_contra fewer
  have less : older.length + 1 < n := by
    rw [List.length_take, List.length_cons] at fewer
    omega
  have kept : lost = [] := by
    by_contra before
    have := full before
    omega
  have dropped : (newest :: older).drop n = [] := List.drop_eq_nil_of_le (Nat.le_of_lt less)
  exact some (by rw [kept, dropped]; rfl)

theorem rotate_listed {generations : List (List Call)}
    (fits : generations.length ≤ leLogdMaxFiles + 1) :
    openLogFile (rotateLogs (Rotation.listed text generations)) =
      Rotation.listed text ([] :: generations.take leLogdMaxFiles) := by
  have free : rotateLogs (Rotation.listed text generations) 0 = none := by
    rw [rotateLogs, Rotation.moveOn_apply (Function.update_self ..)]
    rfl
  rw [openLogFile, free]
  exact Rotation.rotated text fits []

variable {calls : List Call} {s : Central} {p : Places}

theorem step_log (keeps : Keeps calls s p) (c : Call) :
    ∃ p', Keeps (calls ++ sent [.log c]) (s.step (.log c)) p' := by
  cases sends : leLog c with
  | none =>
      refine ⟨p, ?_⟩
      have same : sent [.log c] = [] := by simp [sent, sends]
      rw [same, List.append_nil, Central.step, sends]
      exact keeps
  | some datagram =>
      obtain ⟨rfl, short⟩ := leLog_some sends
      have added : sent [.log c] = [c] := by simp [sent, sends]
      refine ⟨{ p with waiting := p.waiting ++ [c] }, ?_⟩
      rw [added, Central.step, sends]
      exact {
        order := by
          simp only [keeps.order, List.append_assoc]
        short := List.forall_mem_append.mpr ⟨keeps.short, List.forall_mem_singleton.mpr short⟩
        queue := by simp only [keeps.queue, List.map_append, List.map_singleton]
        files := keeps.files
        current := keeps.current }

theorem step_receive (keeps : Keeps calls s p) : ∃ p', Keeps calls (s.step .receive) p' := by
  obtain ⟨lost, generations, waiting⟩ := p
  obtain ⟨newest, older, rfl, room, few, full, rolled⟩ := keeps.current
  cases waiting with
  | nil =>
      have none : s.waiting = [] := keeps.queue
      exact ⟨_, by rwa [Central.step, none]⟩
  | cons c waiting =>
      have queue : s.waiting = c.line :: waiting.map Call.line := keeps.queue
      have short : c.line.length < 1024 := by
        refine keeps.short c ?_
        rw [keeps.order]
        simp
      have file : (s.files 0).getD [] ++ c.line = text (newest ++ [c]) := by
        rw [keeps.files]
        simp [Rotation.listed, text]
      have grown : (text (newest ++ [c])).length = (text newest).length + c.line.length := by
        simp [text]
      have put : Function.update s.files 0 (some (text (newest ++ [c]))) =
          Rotation.listed text ((newest ++ [c]) :: older) := by
        rw [keeps.files, Rotation.update_listed]
      rw [Central.step, queue]
      show ∃ p', Keeps calls ⟨waiting.map Call.line, store s.files (received c.line)⟩ p'
      rw [received_line short, store, file, put]
      have order : calls = lost ++ (((newest ++ [c]) :: older).reverse.flatten ++ waiting) := by
        rw [keeps.order]
        simp
      by_cases long : leLogdMaxSize < (text (newest ++ [c])).length
      · have fits : ((newest ++ [c]) :: older).length ≤ leLogdMaxFiles + 1 := Nat.succ_le_succ few
        rw [if_pos long, rotate_listed fits]
        refine ⟨⟨lost ++ (((newest ++ [c]) :: older).drop leLogdMaxFiles).reverse.flatten,
          [] :: ((newest ++ [c]) :: older).take leLogdMaxFiles, waiting⟩, ?_⟩
        exact {
          order := by
            rw [order, flatten_reverse_split leLogdMaxFiles]
            simp only [List.reverse_cons, List.flatten_append, List.flatten_singleton,
              List.append_nil, List.append_assoc]
          short := keeps.short
          queue := rfl
          files := rfl
          current := by
            refine ⟨[], _, rfl, Nat.zero_le _, List.length_take_le _ _, lost_full full, ?_⟩
            intro g member
            rcases List.mem_cons.mp (List.mem_of_mem_take member) with rfl | old
            · simp only [leLogdMaxSize, leLogdMsgMax] at room long ⊢
              omega
            · exact rolled g old }
      · rw [if_neg long]
        refine ⟨⟨lost, (newest ++ [c]) :: older, waiting⟩, ?_⟩
        exact {
          order := order
          short := keeps.short
          queue := rfl
          files := rfl
          current := ⟨_, _, rfl, Nat.le_of_not_lt long, few, full, rolled⟩ }

theorem keeps_run (run : List Event) : ∃ p, Keeps (sent run) (Runs.run Central.step {} run) p := by
  induction run using List.reverseRecOn with
  | nil => exact ⟨{}, keeps_start⟩
  | append_singleton run e ih =>
      obtain ⟨p, keeps⟩ := ih
      have more : sent (run ++ [e]) = sent run ++ sent [e] := List.filterMap_append
      rw [Runs.run_concat, more]
      cases e with
      | log c => exact step_log keeps c
      | receive =>
          have none : sent [.receive] = [] := rfl
          rw [none, List.append_nil]
          exact step_receive keeps

end LibreEcho.Log
