import Mathlib
import LibreEcho.Lib.Runs
import LibreEcho.Radio.Hls

/-!
`hls_fetcher` of `radiod.c`: the loop that looks at a playlist, fetches its segments and refreshes
it.

A round is one turn of the loop with what the network answers in it. The delay before a refresh and
the address that is asked are left out; they choose nothing here. The records of the rounds are what
the fetcher did, for the statements about it.
-/
namespace LibreEcho.Radio

def hlsStallRefreshes : Nat := 6
def hlsSegmentFails : Nat := 5

/-- What `hls_fetch_segment` returns. -/
inductive SegmentResult where
  | played
  | failed
  | decoderGone
deriving DecidableEq, Repr

/-- What `hls_fetch_text` returns: -1, or the text and the address it came from. -/
inductive FetchedText where
  | failed
  | body (text cur : CText)
deriving DecidableEq, Repr

structure AskedSegment where
  number : Nat
  uri : CText
  result : SegmentResult
deriving DecidableEq, Repr

/-- The part of `hls_fetcher` before its loop; the second text is that of a variant. -/
def hlsOpen (first second : FetchedText) : Option LeHlsPlaylist :=
  match first with
  | .failed => none
  | .body text cur =>
      match leHlsParse text (some cur) with
      | .error _ => none
      | .ok pl =>
          if pl.isMaster then
            match second with
            | .failed => none
            | .body text cur =>
                match leHlsParse text (some cur) with
                | .error _ => none
                | .ok pl => if pl.isMaster then none else some pl
          else some pl

/-- The locals of `hls_fetcher`. -/
structure HlsFetcher where
  pl : LeHlsPlaylist
  nextSeq : Int
  stalled : Nat
  failures : Nat
deriving DecidableEq

def hlsFetcherStart (pl : LeHlsPlaylist) : HlsFetcher where
  pl := pl
  nextSeq := -1
  stalled := 0
  failures := 0

def seqAt (pl : LeHlsPlaylist) (i : Nat) : Int :=
  match pl.entries.val[i]? with
  | some entry => entry.1
  | none => 0

/-- `next_seq` where the segments are looked at. -/
def lookFrom (pl : LeHlsPlaylist) (nextSeq : Int) : Int :=
  let count := pl.entries.val.length
  if nextSeq < 0 then seqAt pl (if 3 < count then count - 3 else 0)
  else if nextSeq < seqAt pl 0 then seqAt pl 0
  else nextSeq

structure SegmentLoop where
  nextSeq : Int
  failures : Nat
  fetched : Nat
  asked : List AskedSegment

def SegmentLoop.ask (s : SegmentLoop) (entry : Nat × CText) (result : SegmentResult) : SegmentLoop :=
  { s with asked := s.asked ++ [⟨entry.1, entry.2, result⟩] }

/-- The loop over the segments from the `i`th on, with the exit status where it returns. -/
def segmentLoop (result : Nat → SegmentResult) :
    Nat → List (Nat × CText) → SegmentLoop → Option Nat × SegmentLoop
  | _, [], s => (none, s)
  | i, entry :: rest, s =>
      if entry.1 < s.nextSeq then segmentLoop result (i + 1) rest s
      else
        let s := s.ask entry (result i)
        match result i with
        | .decoderGone => (some 0, s)
        | .failed =>
            let s := { s with nextSeq := entry.1 + 1, failures := s.failures + 1 }
            if hlsSegmentFails ≤ s.failures then (some 1, s)
            else segmentLoop result (i + 1) rest s
        | .played =>
            segmentLoop result (i + 1) rest
              { s with nextSeq := entry.1 + 1, failures := 0, fetched := s.fetched + 1 }

/-- The turn of the loop up to the delay: the exit status, and the segments asked for. -/
def HlsFetcher.look (s : HlsFetcher) (result : Nat → SegmentResult) :
    Option Nat × HlsFetcher × List AskedSegment :=
  if s.pl.entries.val = [] then (some 1, s, [])
  else
    let (status, p) := segmentLoop result 0 s.pl.entries.val
      ⟨lookFrom s.pl s.nextSeq, s.failures, 0, []⟩
    let s := { s with nextSeq := p.nextSeq, failures := p.failures }
    match status with
    | some status => (some status, s, p.asked)
    | none =>
        if s.pl.endlist then (some 0, s, p.asked)
        else if p.fetched ≠ 0 then (none, { s with stalled := 0 }, p.asked)
        else
          let s := { s with stalled := s.stalled + 1 }
          (if hlsStallRefreshes ≤ s.stalled then some 1 else none, s, p.asked)

def HlsFetcher.failed (s : HlsFetcher) : Option Nat × HlsFetcher :=
  let s := { s with failures := s.failures + 1 }
  (if hlsSegmentFails ≤ s.failures then some 1 else none, s)

/-- The end of the turn; the parser fills `pl` also where it refuses the text. -/
def HlsFetcher.refresh (s : HlsFetcher) : FetchedText → Option Nat × HlsFetcher
  | .failed => s.failed
  | .body text cur =>
      match leHlsParse text (some cur) with
      | .error pl => { s with pl := pl }.failed
      | .ok pl => (none, { s with pl := pl })

/-- What the network answers in one turn: for each place in the playlist, and for the refresh. -/
structure HlsRound where
  result : Nat → SegmentResult
  fetched : FetchedText

structure HlsRecord where
  asked : List AskedSegment
  refreshed : Option FetchedText
  status : Option Nat
deriving DecidableEq, Repr

structure HlsRun where
  fetcher : HlsFetcher
  status : Option Nat
  records : List HlsRecord

def hlsRunStart (pl : LeHlsPlaylist) : HlsRun :=
  ⟨hlsFetcherStart pl, none, []⟩

def HlsRun.step (s : HlsRun) (r : HlsRound) : HlsRun :=
  if s.status.isSome then s
  else
    match s.fetcher.look r.result with
    | (some status, fetcher, asked) =>
        ⟨fetcher, some status, s.records ++ [⟨asked, none, some status⟩]⟩
    | (none, fetcher, asked) =>
        let (status, fetcher) := fetcher.refresh r.fetched
        ⟨fetcher, status, s.records ++ [⟨asked, some r.fetched, status⟩]⟩

end LibreEcho.Radio

/-!
What the segment loop and the rounds of `hls_fetcher` ask for, as long as no refused playlist is
taken for the next one.
-/
namespace LibreEcho.Radio

/-! ### The history of a run -/

def AskedSegment.entry (g : AskedSegment) : Nat × CText :=
  (g.number, g.uri)

def nextAfter (next : Int) (asked : List AskedSegment) : Int :=
  asked.foldl (fun _ g => g.number + 1) next

def failuresAfter (failures : Nat) (asked : List AskedSegment) : Nat :=
  asked.foldl
    (fun n g =>
      match g.result with
      | .played => 0
      | .failed => n + 1
      | .decoderGone => n)
    failures

def AskedSegment.played (g : AskedSegment) : Bool :=
  g.result = .played

def FetchedText.playlist : FetchedText → Option LeHlsPlaylist
  | .failed => none
  | .body text cur => (leHlsParse text (some cur)).toOption

def FetchedText.refused : FetchedText → Bool
  | .failed => false
  | .body text cur => (leHlsParse text (some cur)).toOption.isNone

def HlsRecord.playlist (r : HlsRecord) (pl : LeHlsPlaylist) : LeHlsPlaylist :=
  (r.refreshed.bind FetchedText.playlist).getD pl

def HlsRecord.failures (r : HlsRecord) (failures : Nat) : Nat :=
  match r.refreshed with
  | none => failuresAfter failures r.asked
  | some fetched =>
      if fetched.playlist.isNone then failuresAfter failures r.asked + 1
      else failuresAfter failures r.asked

def HlsRecord.stalled (r : HlsRecord) (stalled : Nat) : Nat :=
  if r.asked.any AskedSegment.played then 0 else stalled + 1

def lastValid (initial : LeHlsPlaylist) (records : List HlsRecord) : LeHlsPlaylist :=
  records.foldl (fun pl r => r.playlist pl) initial

def allAsked (records : List HlsRecord) : List AskedSegment :=
  records.flatMap HlsRecord.asked

def failuresOf (records : List HlsRecord) : Nat :=
  records.foldl (fun n r => r.failures n) 0

def stalledOf (records : List HlsRecord) : Nat :=
  records.foldl (fun n r => r.stalled n) 0

def nextOf (records : List HlsRecord) : Int :=
  nextAfter (-1) (allAsked records)

/-- The numbers from here on are to be played: behind the last segment, at first near the end. -/
def dueFrom (pl : LeHlsPlaylist) (next : Int) : Int :=
  if next < 0 then seqAt pl (if 3 < pl.entries.val.length then pl.entries.val.length - 3 else 0)
  else next

/-! ### What is promised -/

inductive StopReason (initial : LeHlsPlaylist) (before : List HlsRecord) (r : HlsRecord) : Prop where
  | endlist (ends : (lastValid initial before).endlist = true)
  | decoderGone (gone : ∃ g ∈ r.asked, g.result = .decoderGone)
  | failures (many : hlsSegmentFails ≤ failuresOf (before ++ [r]))
  | stalled (long : hlsStallRefreshes ≤ stalledOf (before ++ [r]))
  | noSegment (none : (lastValid initial before).entries.val = [])

structure RoundOk (initial : LeHlsPlaylist) (before : List HlsRecord) (r : HlsRecord) : Prop where
  increasing : (allAsked (before ++ [r])).Pairwise fun a b => a.number < b.number
  listed : ∀ g ∈ r.asked, g.entry ∈ (lastValid initial before).entries.val
  complete : r.refreshed ≠ none → ∀ entry ∈ (lastValid initial before).entries.val,
    dueFrom (lastValid initial before) (nextOf before) ≤ entry.1 →
      ∃ g ∈ r.asked, g.entry = entry
  stops : r.status ≠ none → StopReason initial before r

def PlaysOnce (initial : LeHlsPlaylist) (records : List HlsRecord) : Prop :=
  ∀ before r after, records = before ++ r :: after → RoundOk initial before r

def LeHlsPlaylist.Increasing (pl : LeHlsPlaylist) : Prop :=
  pl.entries.val.Pairwise fun a b => a.1 < b.1

/-- A text that is fetched for a refresh is a playlist with its numbers in order; it may be refused
where that is the failure that ends the fetcher. -/
def HlsRun.Accepts (s : HlsRun) (r : HlsRound) : Prop :=
  s.status = none → ∀ fetcher asked, s.fetcher.look r.result = (none, fetcher, asked) →
    (r.fetched.refused = true → hlsSegmentFails ≤ fetcher.failures + 1) ∧
      ∀ pl, r.fetched.playlist = some pl → pl.Increasing

/-! ### The loop over the segments -/

section Loop
variable {result : Nat → SegmentResult}

def due (next : Int) (entry : Nat × CText) : Bool :=
  next ≤ entry.1

theorem due_true {next : Int} {entry : Nat × CText} (ready : next ≤ entry.1) :
    due next entry = true :=
  decide_eq_true ready

/-- What the loop did from `s` to `s'` with the segments `new`. -/
structure Looped (l : List (Nat × CText)) (s s' : SegmentLoop) (status : Option Nat)
    (new : List AskedSegment) : Prop where
  asked : s'.asked = s.asked ++ new
  front : new.map AskedSegment.entry <+: l.filter (due s.nextSeq)
  all : status = none → new.map AskedSegment.entry = l.filter (due s.nextSeq)
  next : status = none → s'.nextSeq = nextAfter s.nextSeq new
  failures : s'.failures = failuresAfter s.failures new
  fetched : s'.fetched = s.fetched + new.countP AskedSegment.played
  stops : status ≠ none →
    (∃ g ∈ new, g.result = .decoderGone) ∨ hlsSegmentFails ≤ failuresAfter s.failures new

theorem filter_due {next : Int} {entry : Nat × CText} {rest : List (Nat × CText)}
    (above : ∀ e ∈ rest, entry.1 < e.1) (low : next ≤ entry.1 + 1) :
    rest.filter (due next) = rest := by
  refine List.filter_eq_self.mpr fun e member => decide_eq_true ?_
  have later := above e member
  omega

theorem Looped.last {entry : Nat × CText} {rest : List (Nat × CText)} {s s' : SegmentLoop}
    {g : AskedSegment} {status : Nat} (ready : s.nextSeq ≤ entry.1) (named : g.entry = entry)
    (asked : s'.asked = s.asked ++ [g]) (failures : s'.failures = failuresAfter s.failures [g])
    (fetched : s'.fetched = s.fetched) (missed : g.played = false)
    (stops : g.result = .decoderGone ∨ hlsSegmentFails ≤ failuresAfter s.failures [g]) :
    Looped (entry :: rest) s s' (some status) [g] where
  asked := asked
  front := by
    rw [List.filter_cons_of_pos (due_true ready), List.map_singleton, named]
    exact List.prefix_append [entry] _
  all := nofun
  next := nofun
  failures := failures
  fetched := by rw [fetched, List.countP_cons_of_neg (by simp [missed]), List.countP_nil,
    Nat.add_zero]
  stops := fun _ => stops.imp_left fun gone => ⟨g, List.mem_cons_self, gone⟩

theorem Looped.cons {entry : Nat × CText} {rest : List (Nat × CText)} {s s1 s' : SegmentLoop}
    {g : AskedSegment} {status : Option Nat} {new : List AskedSegment}
    (above : ∀ e ∈ rest, entry.1 < e.1) (ready : s.nextSeq ≤ entry.1) (named : g.entry = entry)
    (asked : s1.asked = s.asked ++ [g]) (next : s1.nextSeq = entry.1 + 1)
    (failures : s1.failures = failuresAfter s.failures [g])
    (fetched : s1.fetched = s.fetched + [g].countP AskedSegment.played)
    (later : Looped rest s1 s' status new) : Looped (entry :: rest) s s' status (g :: new) := by
  have filtered : (entry :: rest).filter (due s.nextSeq) = entry :: rest := by
    rw [List.filter_cons_of_pos (due_true ready), filter_due above (by omega)]
  have behind : rest.filter (due s1.nextSeq) = rest :=
    filter_due above (by omega)
  have folded : failuresAfter s1.failures new = failuresAfter s.failures (g :: new) := by
    rw [failures]
    rfl
  refine ⟨?_, ?_, fun goes => ?_, fun goes => ?_, later.failures.trans folded, ?_, fun stopped => ?_⟩
  · rw [later.asked, asked, List.append_assoc, List.singleton_append]
  · have front := later.front
    rw [behind] at front
    rw [filtered, List.map_cons, named]
    exact List.prefix_cons_inj entry |>.mpr front
  · have all := later.all goes
    rw [behind] at all
    rw [filtered, List.map_cons, named, all]
  · rw [later.next goes, next]
    show nextAfter (entry.1 + 1) new = nextAfter (g.number + 1) new
    rw [← named]
    rfl
  · rw [later.fetched, fetched, Nat.add_assoc, ← List.countP_append, List.singleton_append]
  · rw [← folded]
    exact (later.stops stopped).imp_left fun ⟨g', member, gone⟩ =>
      ⟨g', List.mem_cons_of_mem _ member, gone⟩

theorem segmentLoop_spec {l : List (Nat × CText)} (increasing : l.Pairwise fun a b => a.1 < b.1)
    (i : Nat) (s : SegmentLoop) :
    ∃ new, Looped l s (segmentLoop result i l s).2 (segmentLoop result i l s).1 new := by
  induction l generalizing i s with
  | nil =>
      exact ⟨[], (List.append_nil _).symm, List.nil_prefix, fun _ => rfl, fun _ => rfl, rfl, rfl,
        fun stopped => absurd rfl stopped⟩
  | cons entry rest ih =>
      obtain ⟨above, increasing⟩ := List.pairwise_cons.mp increasing
      rw [segmentLoop]
      split
      case isTrue old =>
        obtain ⟨new, looped⟩ := ih increasing (i + 1) s
        have skipped : (entry :: rest).filter (due s.nextSeq) =
            rest.filter (due s.nextSeq) :=
          List.filter_cons_of_neg (by simpa [due] using old)
        exact ⟨new, looped.asked, skipped ▸ looped.front, fun goes => skipped ▸ looped.all goes,
          looped.next, looped.failures, looped.fetched, looped.stops⟩
      case isFalse notOld =>
        have ready := Int.not_lt.mp notOld
        dsimp only
        cases answer : result i with
        | decoderGone =>
            exact ⟨[⟨entry.1, entry.2, .decoderGone⟩],
              .last ready rfl rfl rfl rfl rfl (.inl rfl)⟩
        | failed =>
            dsimp only
            split
            case isTrue many =>
              exact ⟨[⟨entry.1, entry.2, .failed⟩], .last ready rfl rfl rfl rfl rfl (.inr many)⟩
            case isFalse =>
              obtain ⟨new, looped⟩ := ih increasing (i + 1)
                { s.ask entry .failed with nextSeq := entry.1 + 1, failures := s.failures + 1 }
              refine ⟨⟨entry.1, entry.2, .failed⟩ :: new, .cons above ready ?_ ?_ ?_ ?_ ?_ looped⟩
              all_goals rfl
        | played =>
            obtain ⟨new, looped⟩ := ih increasing (i + 1)
              { s.ask entry .played with
                nextSeq := entry.1 + 1, failures := 0, fetched := s.fetched + 1 }
            refine ⟨⟨entry.1, entry.2, .played⟩ :: new, .cons above ready ?_ ?_ ?_ ?_ ?_ looped⟩
            all_goals rfl

end Loop

/-! ### Where the loop starts -/

theorem seqAt_listed {pl : LeHlsPlaylist} {i : Nat} (inside : i < pl.entries.val.length) :
    ∃ entry ∈ pl.entries.val, (entry.1 : Int) = seqAt pl i := by
  refine ⟨pl.entries.val.get ⟨i, inside⟩, List.get_mem _ _, ?_⟩
  rw [seqAt, List.getElem?_eq_getElem inside]
  rfl

theorem seqAt_nonneg (pl : LeHlsPlaylist) (i : Nat) : 0 ≤ seqAt pl i := by
  rw [seqAt]
  split
  case h_1 entry _ => exact Int.natCast_nonneg entry.1
  case h_2 => exact Int.le_refl 0

theorem seqAt_zero_le {pl : LeHlsPlaylist} (increasing : pl.Increasing) {entry : Nat × CText}
    (listed : entry ∈ pl.entries.val) : seqAt pl 0 ≤ entry.1 := by
  rw [LeHlsPlaylist.Increasing] at increasing
  rw [seqAt]
  cases entries : pl.entries.val with
  | nil => exact Int.natCast_nonneg entry.1
  | cons first rest =>
      rw [entries] at increasing listed
      obtain same | later := List.mem_cons.mp listed
      · rw [same]
        exact Int.le_refl _
      · have above := (List.pairwise_cons.mp increasing).1 entry later
        show (first.1 : Int) ≤ entry.1
        omega

theorem lookFrom_ge (pl : LeHlsPlaylist) (next : Int) : next ≤ lookFrom pl next := by
  rw [lookFrom]
  split
  case isTrue unset => exact Int.le_trans (Int.le_of_lt unset) (seqAt_nonneg pl _)
  case isFalse =>
    split
    case isTrue behind => exact Int.le_of_lt behind
    case isFalse => exact Int.le_refl next

theorem lookFrom_listed {pl : LeHlsPlaylist} (filled : pl.entries.val ≠ []) (next : Int) :
    lookFrom pl next = next ∨ ∃ entry ∈ pl.entries.val, (entry.1 : Int) = lookFrom pl next := by
  have some := List.length_pos_of_ne_nil filled
  rw [lookFrom]
  split
  case isTrue => exact .inr (seqAt_listed (by split <;> omega))
  case isFalse =>
    split
    case isTrue => exact .inr (seqAt_listed some)
    case isFalse => exact .inl rfl

theorem lookFrom_due {pl : LeHlsPlaylist} (increasing : pl.Increasing) {next : Int}
    {entry : Nat × CText} (listed : entry ∈ pl.entries.val) (ready : dueFrom pl next ≤ entry.1) :
    lookFrom pl next ≤ entry.1 := by
  rw [dueFrom] at ready
  rw [lookFrom]
  split
  case isTrue unset => rwa [if_pos unset] at ready
  case isFalse set =>
    rw [if_neg set] at ready
    split
    case isTrue => exact seqAt_zero_le increasing listed
    case isFalse => exact ready

/-! ### A round -/

theorem nextAfter_above {asked : List AskedSegment}
    (increasing : asked.Pairwise fun a b => a.number < b.number) (next : Int) :
    ∀ g ∈ asked, (g.number : Int) < nextAfter next asked := by
  induction asked using List.reverseRecOn with
  | nil => exact nofun
  | append_singleton front last _ =>
      intro g member
      have ends : nextAfter next (front ++ [last]) = last.number + 1 := by
        rw [nextAfter, List.foldl_append]
        rfl
      rw [ends]
      obtain early | same := List.mem_append.mp member
      · have below := (List.pairwise_append.mp increasing).2.2 g early last List.mem_cons_self
        omega
      · rw [List.mem_singleton.mp same]
        exact Int.lt_succ _

theorem allAsked_concat (before : List HlsRecord) (r : HlsRecord) :
    allAsked (before ++ [r]) = allAsked before ++ r.asked := by
  rw [allAsked, List.flatMap_append, List.flatMap_singleton, ← allAsked]

theorem nextOf_concat (before : List HlsRecord) (r : HlsRecord) :
    nextOf (before ++ [r]) = nextAfter (nextOf before) r.asked := by
  rw [nextOf, allAsked_concat, nextAfter, List.foldl_append]
  rfl

theorem failuresOf_concat (before : List HlsRecord) (r : HlsRecord) :
    failuresOf (before ++ [r]) = r.failures (failuresOf before) :=
  List.foldl_append

theorem stalledOf_concat (before : List HlsRecord) (r : HlsRecord) :
    stalledOf (before ++ [r]) = r.stalled (stalledOf before) :=
  List.foldl_append

theorem lastValid_concat (initial : LeHlsPlaylist) (before : List HlsRecord) (r : HlsRecord) :
    lastValid initial (before ++ [r]) = r.playlist (lastValid initial before) :=
  List.foldl_append

structure Tracks (initial : LeHlsPlaylist) (records : List HlsRecord) (s : HlsFetcher) : Prop where
  pl : s.pl = lastValid initial records
  increasing : s.pl.Increasing
  ordered : (allAsked records).Pairwise fun a b => a.number < b.number
  next : s.nextSeq = nextOf records
  failures : s.failures = failuresOf records
  stalled : s.stalled = stalledOf records

abbrev HlsFetcher.Looks (s : HlsFetcher) (p : SegmentLoop) (status : Option Nat)
    (asked : List AskedSegment) : Prop :=
  Looped s.pl.entries.val ⟨lookFrom s.pl s.nextSeq, s.failures, 0, []⟩ p status asked

/-- How a round comes to the refresh, or why it does not. -/
inductive LookCase (s : HlsFetcher) : Option Nat → HlsFetcher → List AskedSegment → Prop where
  | empty (none : s.pl.entries.val = []) : LookCase s (some 1) s []
  | returned {s' : HlsFetcher} {asked : List AskedSegment} (p : SegmentLoop) (status : Nat)
      (looked : s.Looks p (some status) asked) : LookCase s (some status) s' asked
  | ended {s' : HlsFetcher} {asked : List AskedSegment} (p : SegmentLoop)
      (looked : s.Looks p none asked) (ends : s.pl.endlist = true) : LookCase s (some 0) s' asked
  | stalled {s' : HlsFetcher} {asked : List AskedSegment} (p : SegmentLoop)
      (looked : s.Looks p none asked) (nothing : p.fetched = 0)
      (long : hlsStallRefreshes ≤ s.stalled + 1) : LookCase s (some 1) s' asked
  | goes {asked : List AskedSegment} (p : SegmentLoop) (filled : s.pl.entries.val ≠ [])
      (looked : s.Looks p none asked) :
      LookCase s none
        ⟨s.pl, p.nextSeq, if p.fetched ≠ 0 then 0 else s.stalled + 1, p.failures⟩ asked

theorem look_cases (s : HlsFetcher) (increasing : s.pl.Increasing) (result : Nat → SegmentResult) :
    LookCase s (s.look result).1 (s.look result).2.1 (s.look result).2.2 := by
  rw [HlsFetcher.look]
  split
  case isTrue none => exact .empty none
  case isFalse filled =>
    obtain ⟨new, looked⟩ := @segmentLoop_spec result _ increasing 0
      ⟨lookFrom s.pl s.nextSeq, s.failures, 0, []⟩
    rcases loop : segmentLoop result 0 s.pl.entries.val
      ⟨lookFrom s.pl s.nextSeq, s.failures, 0, []⟩ with ⟨status, p⟩
    rw [loop] at looked
    have asked : p.asked = new := looked.asked
    subst asked
    cases status with
    | some status => exact .returned p status looked
    | none =>
        dsimp only
        split
        case isTrue ends => exact .ended p looked ends
        case isFalse =>
          split
          case isTrue some =>
            have goes := LookCase.goes p filled looked
            rwa [if_pos some] at goes
          case isFalse nothing =>
            dsimp only
            split
            case isTrue long => exact .stalled p looked (not_not.mp nothing) long
            case isFalse =>
              have goes := LookCase.goes p filled looked
              rwa [if_neg nothing] at goes

section Round
variable {initial : LeHlsPlaylist} {records : List HlsRecord} {s : HlsFetcher} {p : SegmentLoop}
  {status : Option Nat} {asked : List AskedSegment}

theorem Looped.listed (looked : s.Looks p status asked) {g : AskedSegment} (member : g ∈ asked) :
    g.entry ∈ s.pl.entries.val ∧ lookFrom s.pl s.nextSeq ≤ g.number := by
  have inside := looked.front.subset (List.mem_map_of_mem member)
  obtain ⟨listed, ready⟩ := List.mem_filter.mp inside
  exact ⟨listed, of_decide_eq_true ready⟩

theorem Tracks.increases (tracks : Tracks initial records s) (looked : s.Looks p status asked) :
    (allAsked records ++ asked).Pairwise fun a b => a.number < b.number := by
  have new : asked.Pairwise fun a b => a.number < b.number := by
    have sub := looked.front.sublist.trans List.filter_sublist
    have entries := List.Pairwise.sublist sub tracks.increasing
    exact (List.pairwise_map (R := fun a b : Nat × CText => a.1 < b.1)).mp entries
  refine List.pairwise_append.mpr ⟨tracks.ordered, new, fun old before g member => ?_⟩
  have low := nextAfter_above tracks.ordered (-1) old before
  have high := (looked.listed member).2
  have between := lookFrom_ge s.pl s.nextSeq
  rw [tracks.next, nextOf] at between high
  omega

theorem Tracks.roundOk (tracks : Tracks initial records s) (looked : s.Looks p status asked)
    {refreshed : Option FetchedText} {exit : Option Nat}
    (whole : refreshed ≠ none → status = none)
    (stops : exit ≠ none → StopReason initial records ⟨asked, refreshed, exit⟩) :
    RoundOk initial records ⟨asked, refreshed, exit⟩ where
  increasing := by
    rw [allAsked_concat]
    exact tracks.increases looked
  listed := fun g member => tracks.pl ▸ (looked.listed member).1
  complete := fun refreshes entry listed ready => by
    rw [← tracks.pl] at listed ready
    rw [← tracks.next] at ready
    have due_ := due_true (lookFrom_due tracks.increasing listed ready)
    have filtered := List.mem_filter.mpr ⟨listed, due_⟩
    rw [← looked.all (whole refreshes)] at filtered
    exact List.mem_map.mp filtered
  stops := stops

theorem Tracks.nextSeq (tracks : Tracks initial records s) (looked : s.Looks p none asked)
    (filled : s.pl.entries.val ≠ []) : p.nextSeq = nextAfter (nextOf records) asked := by
  rw [looked.next rfl]
  cases asked with
  | cons g asked => rfl
  | nil =>
      show lookFrom s.pl s.nextSeq = nextOf records
      rw [← tracks.next]
      obtain same | ⟨entry, listed, starts⟩ := lookFrom_listed filled s.nextSeq
      · exact same
      · have inside := List.mem_filter.mpr ⟨listed, due_true (Int.le_of_eq starts.symm)⟩
        rw [← looked.all rfl] at inside
        exact absurd inside List.not_mem_nil

theorem played_countP (looked : s.Looks p status asked) :
    asked.any AskedSegment.played = true ↔ p.fetched ≠ 0 := by
  rw [looked.fetched, Nat.zero_add, ← Nat.pos_iff_ne_zero, List.countP_pos_iff, List.any_eq_true]

theorem playlist_none {fetched : FetchedText} (refused : fetched.refused = false)
    (none : fetched.playlist = none) : fetched = .failed := by
  cases fetched with
  | failed => rfl
  | body text cur =>
      rw [FetchedText.refused, ← FetchedText.playlist, none] at refused
      cases refused

theorem refresh_cases (s : HlsFetcher) (fetched : FetchedText) :
    (∃ pl, fetched.playlist = some pl ∧ s.refresh fetched = (none, { s with pl := pl })) ∨
      ∃ pl, fetched.playlist = none ∧ (fetched = .failed → pl = s.pl) ∧
        s.refresh fetched =
          (if hlsSegmentFails ≤ s.failures + 1 then some 1 else none,
            { s with pl := pl, failures := s.failures + 1 }) := by
  cases fetched with
  | failed => exact .inr ⟨s.pl, rfl, fun _ => rfl, rfl⟩
  | body text cur =>
      rw [HlsFetcher.refresh]
      cases parsed : leHlsParse text (some cur) with
      | ok pl => exact .inl ⟨pl, by rw [FetchedText.playlist, parsed]; rfl, rfl⟩
      | error pl => exact .inr ⟨pl, by rw [FetchedText.playlist, parsed]; rfl, nofun, rfl⟩

end Round

/-- Every round so far did what it may, and the fetcher agrees with them while it runs. -/
structure HlsRun.Held (initial : LeHlsPlaylist) (s : HlsRun) : Prop where
  rounds : PlaysOnce initial s.records
  tracks : s.status = none → Tracks initial s.records s.fetcher

theorem PlaysOnce.concat {initial : LeHlsPlaylist} {records : List HlsRecord} {r : HlsRecord}
    (rounds : PlaysOnce initial records) (ok : RoundOk initial records r) :
    PlaysOnce initial (records ++ [r]) := by
  intro before r' after cut
  rcases List.eq_nil_or_concat after with rfl | ⟨front, last, rfl⟩
  · obtain ⟨rfl, same⟩ := List.append_inj' cut rfl
    rw [← (List.cons.inj same).1]
    exact ok
  · rw [List.concat_eq_append, ← List.cons_append, ← List.append_assoc] at cut
    exact rounds before r' front (List.append_inj' cut rfl).1

theorem HlsRun.Held.step {initial : LeHlsPlaylist} {s : HlsRun} {r : HlsRound}
    (held : s.Held initial) (accepts : s.Accepts r) : (s.step r).Held initial := by
  unfold HlsRun.step
  split
  case isTrue => exact held
  case isFalse runs =>
    have runs : s.status = none := by simpa using runs
    have tracks := held.tracks runs
    have looks := look_cases s.fetcher tracks.increasing r.result
    have accepts := accepts runs
    rcases look : s.fetcher.look r.result with ⟨status, fetcher, asked⟩
    rw [look] at looks
    dsimp only at looks ⊢
    cases looks with
    | empty blank =>
        refine ⟨held.rounds.concat ⟨?_, nofun, fun goes => absurd rfl goes, fun _ => ?_⟩, nofun⟩
        · rw [allAsked_concat, List.append_nil]
          exact tracks.ordered
        · exact .noSegment (tracks.pl ▸ blank)
    | returned p status looked =>
        refine ⟨held.rounds.concat (tracks.roundOk looked (fun goes => absurd rfl goes) fun _ => ?_),
          nofun⟩
        obtain gone | many := looked.stops nofun
        · exact .decoderGone gone
        · refine .failures ?_
          rw [failuresOf_concat, ← tracks.failures]
          exact many
    | ended p looked ends =>
        exact ⟨held.rounds.concat (tracks.roundOk looked (fun goes => absurd rfl goes) fun _ =>
          .endlist (tracks.pl ▸ ends)), nofun⟩
    | stalled p looked nothing long =>
        refine ⟨held.rounds.concat (tracks.roundOk looked (fun goes => absurd rfl goes) fun _ => ?_),
          nofun⟩
        have silent : asked.any AskedSegment.played = false :=
          Bool.eq_false_iff.mpr fun some => (played_countP looked).mp some nothing
        refine .stalled ?_
        rw [stalledOf_concat, ← tracks.stalled, HlsRecord.stalled, silent]
        exact long
    | goes p filled looked =>
        have failures : p.failures = failuresAfter (failuresOf s.records) asked := by
          rw [looked.failures, tracks.failures]
        have stalled : (if p.fetched ≠ 0 then 0 else s.fetcher.stalled + 1) =
            if asked.any AskedSegment.played then 0 else stalledOf s.records + 1 := by
          rw [tracks.stalled]
          exact if_congr (played_countP looked).symm rfl rfl
        have ordered := tracks.increases looked
        have next := tracks.nextSeq looked filled
        obtain ⟨refuses, increasing⟩ := accepts _ _ look
        obtain ⟨pl, accepted, same⟩ | ⟨pl, missed, kept, same⟩ := refresh_cases
          ⟨s.fetcher.pl, p.nextSeq, if p.fetched ≠ 0 then 0 else s.fetcher.stalled + 1, p.failures⟩
          r.fetched
        · dsimp only
          rw [same]
          refine ⟨held.rounds.concat (tracks.roundOk looked (fun _ => rfl) fun stops =>
            absurd rfl stops), fun _ => ⟨?_, increasing pl accepted, ?_, ?_, ?_, ?_⟩⟩
          · rw [lastValid_concat, HlsRecord.playlist, Option.bind_some, accepted]
            rfl
          · rw [allAsked_concat]
            exact ordered
          · rw [nextOf_concat]
            exact next
          · rw [failuresOf_concat, HlsRecord.failures]
            dsimp only
            rw [accepted]
            exact failures
          · rw [stalledOf_concat]
            exact stalled
        · have counted (exit : Option Nat) :
              failuresOf (s.records ++ [⟨asked, some r.fetched, exit⟩]) = p.failures + 1 := by
            rw [failuresOf_concat, HlsRecord.failures]
            dsimp only
            rw [missed, failures]
            rfl
          dsimp only
          rw [same]
          refine ⟨held.rounds.concat (tracks.roundOk looked (fun _ => rfl) fun stops => ?_),
            fun runs => ?_⟩
          · refine .failures ?_
            rw [counted]
            by_contra few
            exact stops (if_neg few)
          · have few : ¬hlsSegmentFails ≤ p.failures + 1 := fun many => by
              rw [if_pos many] at runs
              cases runs
            have plain : r.fetched = .failed := by
              refine playlist_none ?_ missed
              rw [← Bool.not_eq_true]
              exact fun refused => few (refuses refused)
            rw [kept plain]
            refine ⟨?_, tracks.increasing, ?_, ?_, (counted _).symm, ?_⟩
            · rw [lastValid_concat, HlsRecord.playlist, Option.bind_some, missed]
              exact tracks.pl
            · rw [allAsked_concat]
              exact ordered
            · rw [nextOf_concat]
              exact next
            · rw [stalledOf_concat]
              exact stalled

/-- Each segment is asked for once and in order, and the fetcher stops only for a reason, in every
run whose refreshes are accepted or are not fetched. -/
theorem hlsFetcher_law (initial : LeHlsPlaylist) (increasing : initial.Increasing)
    (rounds : List HlsRound)
    (admitted : Runs.Admits HlsRun.step HlsRun.Accepts (hlsRunStart initial) rounds) :
    PlaysOnce initial (Runs.run HlsRun.step (hlsRunStart initial) rounds).records := by
  have start : (hlsRunStart initial).Held initial :=
    ⟨fun before r after cut => by
        rw [hlsRunStart] at cut
        exact absurd cut (by simp),
      fun _ => ⟨rfl, increasing, .nil, rfl, rfl, rfl⟩⟩
  exact (Runs.run_invariant HlsRun.step (fun s r held accepts => HlsRun.Held.step held accepts) start
    admitted).rounds

def segmentBase : CText := "http://radio/list".toList
def firstText : CText := "#EXTM3U\n#EXTINF:6\na\n".toList
def movedText : CText := "#EXTM3U\n#EXT-X-MEDIA-SEQUENCE:1\n#EXTINF:6\nb\n".toList

/-- The playlist of `firstText`. -/
def firstSegment : LeHlsPlaylist :=
  { clearedPlaylist with entries := ⟨[(0, "http://radio/a".toList)], by decide⟩ }

def movedSegment : LeHlsPlaylist :=
  { clearedPlaylist with
    mediaSequence := 1
    entries := ⟨[(1, "http://radio/b".toList)], by decide⟩ }

theorem movedText_playlist :
    (FetchedText.body movedText segmentBase).playlist = some movedSegment := by
  decide +kernel

theorem hlsFetcher_law_moved :
    hlsOpen (.body firstText segmentBase) .failed = some firstSegment ∧
      PlaysOnce firstSegment (Runs.run HlsRun.step (hlsRunStart firstSegment)
        [⟨fun _ => .played, .body movedText segmentBase⟩, ⟨fun _ => .played, .failed⟩]).records := by
  refine ⟨by decide +kernel, hlsFetcher_law firstSegment (List.pairwise_singleton _ _) _
    ⟨fun _ _ _ _ => ⟨?_, ?_⟩, fun _ _ _ _ => ⟨nofun, nofun⟩, trivial⟩⟩
  · intro refused
    rw [FetchedText.refused, ← FetchedText.playlist, movedText_playlist] at refused
    cases refused
  · intro pl accepted
    rw [movedText_playlist] at accepted
    cases accepted
    exact List.pairwise_singleton _ _

/-- One refused text for a refresh, and the fetcher stops in the round behind it. -/
theorem refusedText_stops :
    hlsOpen (.body firstText segmentBase) .failed = some firstSegment ∧
      ¬PlaysOnce firstSegment (Runs.run HlsRun.step (hlsRunStart firstSegment)
        [⟨fun _ => .played, .body "x".toList segmentBase⟩, ⟨fun _ => .played, .failed⟩]).records := by
  refine ⟨by decide +kernel, fun once => ?_⟩
  have played : (Runs.run HlsRun.step (hlsRunStart firstSegment)
      [⟨fun _ => .played, .body "x".toList segmentBase⟩, ⟨fun _ => .played, .failed⟩]).records =
      [⟨[⟨0, "http://radio/a".toList, .played⟩], some (.body "x".toList segmentBase), none⟩,
        ⟨[], none, some 1⟩] := by
    decide +kernel
  rw [played] at once
  cases (once [_] _ [] rfl).stops nofun with
  | endlist ends => cases ends
  | decoderGone gone => simp at gone
  | failures many => exact absurd many (by decide +kernel)
  | stalled long => exact absurd long (by decide +kernel)
  | noSegment none => cases none

end LibreEcho.Radio
