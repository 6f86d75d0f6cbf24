import LibreEcho.Events.Bus
import LibreEcho.Json.ReadBack
import LibreEcho.Lib.Lines

/-!
What the API publishes, and `GET /api/v1/events`.

The endpoint lists the oldest events of the bus, so the newest one is told only while the bus
holds no more events than the endpoint lists.
-/
namespace LibreEcho.Events
open RingBuffer ByteText
open EventStream (Field Message Unbroken)

/-! ### The publishers -/

inductive LogLevel where
  | info | warning | error
deriving DecidableEq

def LogLevel.text : LogLevel → Bytes
  | .info => ascii "info"
  | .warning => ascii "warning"
  | .error => ascii "error"

inductive Publication where
  /-- A line of `api_log`, at a time and a time since boot. -/
  | log (level : LogLevel) (message : Bytes) (timestamp bootSeconds : Int)
  | device
  | audio
  | led
  | network
  | deviceState

/-- `%ld` -/
def longDecimal (n : Int) : Bytes :=
  if n < 0 then 0x2d :: decimal n.natAbs else decimal n.natAbs

def logMessageMax : Nat := 180
def logLineMax : Nat := 256

def logLine (level : LogLevel) (message : Bytes) (timestamp bootSeconds : Int) : Bytes :=
  (ascii "\x7b\"timestamp\":" ++ longDecimal timestamp ++ ascii ",\"boot_seconds\":" ++
    longDecimal bootSeconds ++ ascii ",\"level\":\"" ++ level.text ++ ascii "\",\"message\":\"" ++
    Json.jsonEscape logMessageMax message ++ ascii "\"\x7d").take (logLineMax - 1)

def changedData : Bytes :=
  ascii "\x7b\"changed\":true\x7d"

def Publication.event : Publication → Bytes × Bytes
  | .log level message timestamp bootSeconds =>
      (ascii "log", logLine level message timestamp bootSeconds)
  | .device => (ascii "device", changedData)
  | .audio => (ascii "audio", changedData)
  | .led => (ascii "led", changedData)
  | .network => (ascii "network", ascii "\x7b\"state\":\"connecting\"\x7d")
  | .deviceState => (ascii "device_state", ascii "\x7b\"setup_completed\":true\x7d")

def busAfter (M : DataModel) (published : List Publication) : LeEventBus :=
  publishAll M eventBusInit (published.map Publication.event)

/-! ### The response -/

def leApiResponseBytes : Nat := 131072

structure ResponseBody where
  text : Bytes
  used : Nat

/-- `snprintf` at the end of the body: all of the text counts, what fits is written. -/
def ResponseBody.print (body : ResponseBody) (text : Bytes) : ResponseBody where
  text := body.text ++ text.take (leApiResponseBytes - body.used - 1)
  used := body.used + text.length

def eventText (e : LeEvent) : Bytes :=
  ascii "id: " ++ decimal e.id ++ ascii "\nevent: " ++ e.type ++ ascii "\ndata: " ++ e.data ++
    ascii "\n\n"

def statusText : Bytes :=
  ascii "event: status\ndata: \x7b\"refresh\":true\x7d\n\n"

structure ApiResponse where
  status : Nat
  type : Bytes
  body : Bytes
  length : Nat

def eventsListed : Nat := 8

def printEvents (listed : List LeEvent) (body : ResponseBody) : ResponseBody :=
  listed.foldl (fun body e => body.print (eventText e)) body

def getEvents (M : DataModel) (b : LeEventBus) : ApiResponse :=
  let listed := eventBusSince M b 0 eventsListed
  let body : ResponseBody := printEvents listed ⟨[], 0⟩
  let body := body.print statusText
  ⟨200, ascii "text/event-stream", body.text, body.used⟩

/-! ### One line each -/

section Clean
open Json (Clean)

theorem unbroken_of_clean {s : Bytes} (clean : Clean s) : Unbroken s := by
  refine ⟨fun here => ?_, fun here => ?_⟩
  · exact absurd (clean _ here) (by decide)
  · exact absurd (clean _ here) (by decide)

theorem clean_append {s t : Bytes} (first : Clean s) (second : Clean t) : Clean (s ++ t) :=
  List.forall_mem_append.mpr ⟨first, second⟩

theorem decimal_clean (n : Nat) : Clean (decimal n) := by
  intro b here
  have digit := decimal_isDigit here
  rw [isDigit, Bool.and_eq_true, decide_eq_true_eq] at digit
  exact UInt8.le_trans (by decide) digit.1

theorem longDecimal_clean (n : Int) : Clean (longDecimal n) := by
  unfold longDecimal
  split
  · exact Json.clean_cons.mpr ⟨by decide, decimal_clean _⟩
  · exact decimal_clean _

theorem hexDigit_clean {d : Nat} (digit : d < 16) : 0x20 ≤ hexDigit d := by
  have all : ∀ d : Fin 16, 0x20 ≤ hexDigit d.val := by decide
  exact all ⟨d, digit⟩

theorem escapeByte_clean (c : UInt8) : Clean (Json.escapeByte c) := by
  unfold Json.escapeByte
  split
  case isTrue marked =>
      rcases marked with rfl | rfl
      · decide
      · decide
  split
  · decide
  split
  · decide
  split
  · decide
  split
  case isTrue printed => exact List.forall_mem_singleton.mpr printed
  case isFalse =>
      have high : c.toNat / 16 < 16 := by
        have := c.toNat_lt
        omega
      have digits : Clean [hexDigit (c.toNat / 16), hexDigit (c.toNat % 16)] :=
        Json.clean_cons.mpr ⟨hexDigit_clean high,
          List.forall_mem_singleton.mpr (hexDigit_clean (Nat.mod_lt _ (by decide)))⟩
      exact clean_append (s := [92, 117, 48, 48]) (by decide) digits

theorem escapeLoop_clean (z : Nat) (input : Bytes) {out : Bytes} (clean : Clean out) :
    Clean (Json.escapeLoop z input out) := by
  induction input generalizing out with
  | nil => exact clean
  | cons c input ih =>
      rw [Json.escapeLoop]
      split
      · exact clean
      · exact ih (clean_append clean (escapeByte_clean c))

theorem logLine_clean (level : LogLevel) (message : Bytes) (timestamp bootSeconds : Int) :
    Clean (logLine level message timestamp bootSeconds) := by
  have told : Clean level.text := by
    cases level with
    | info | warning | error => decide
  have escaped : Clean (Json.jsonEscape logMessageMax message) :=
    escapeLoop_clean _ message (by decide)
  intro b here
  refine clean_append (clean_append (clean_append (clean_append (clean_append (clean_append
    (clean_append (clean_append ?_ (longDecimal_clean timestamp)) ?_)
      (longDecimal_clean bootSeconds)) ?_) told) ?_) escaped) ?_ b (List.mem_of_mem_take here)
  · decide
  · decide
  · decide
  · decide
  · decide

theorem event_clean (p : Publication) : Clean p.event.1 ∧ Clean p.event.2 := by
  cases p with
  | log level message timestamp bootSeconds =>
      exact ⟨show Clean (ascii "log") by decide,
        logLine_clean level message timestamp bootSeconds⟩
  | device | audio | led | network | deviceState => exact ⟨by decide, by decide⟩

end Clean

/-! ### The response is an event stream -/

def eventMessage (e : LeEvent) : Message :=
  [⟨ascii "id", decimal e.id⟩, ⟨ascii "event", e.type⟩, ⟨ascii "data", e.data⟩]

def statusMessage : Message :=
  [⟨ascii "event", ascii "status"⟩, ⟨ascii "data", ascii "\x7b\"refresh\":true\x7d"⟩]

/-- What the publishers guarantee of an event, and the bus of its id. -/
structure LeEvent.Told (M : DataModel) (e : LeEvent) : Prop where
  id : e.id < M.ulongs
  type : Unbroken e.type
  data : Unbroken e.data
  typeFits : e.type.length < leEventTypeMax
  dataFits : e.data.length < leEventDataMax

section Told
variable {M : DataModel} {e : LeEvent}

theorem eventAt_told (i : Nat) (p : Publication) : (eventAt M i p.event).Told M where
  id := Nat.mod_lt _ (Nat.lt_of_lt_of_le (by decide) (ulongs_large M))
  type := (unbroken_of_clean (event_clean p).1).take _
  data := (unbroken_of_clean (event_clean p).2).take _
  typeFits := Nat.lt_of_le_of_lt (List.length_take_le _ _) (by decide)
  dataFits := Nat.lt_of_le_of_lt (List.length_take_le _ _) (by decide)

theorem history_told {published : List Publication}
    (member : e ∈ history M (published.map Publication.event)) : e.Told M := by
  obtain ⟨i, bound, rfl⟩ := List.mem_mapIdx.mp member
  rw [List.getElem_map]
  exact eventAt_told i _

theorem eventMessage_sound (told : e.Told M) : (eventMessage e).Sound := by
  have named : EventStream.FieldName (ascii "id") ∧ EventStream.FieldName (ascii "event") ∧
      EventStream.FieldName (ascii "data") := by decide
  intro f here
  rcases List.mem_cons.mp here with rfl | here
  · exact ⟨named.1, unbroken_of_clean (decimal_clean _)⟩
  rcases List.mem_cons.mp here with rfl | here
  · exact ⟨named.2.1, told.type⟩
  · rw [List.mem_singleton.mp here]
    exact ⟨named.2.2, told.data⟩

theorem statusMessage_sound : statusMessage.Sound := by
  intro f here
  rcases List.mem_cons.mp here with rfl | here
  · exact ⟨by decide, by decide⟩
  · rw [List.mem_singleton.mp here]
    exact ⟨by decide, by decide⟩

theorem eventText_eq (e : LeEvent) : eventText e = (eventMessage e).text := by
  have id : ascii "id: " = ascii "id" ++ [EventStream.colon, EventStream.space] := by decide
  have event : ascii "\nevent: " =
      EventStream.lineFeed :: (ascii "event" ++ [EventStream.colon, EventStream.space]) := by decide
  have data : ascii "\ndata: " =
      EventStream.lineFeed :: (ascii "data" ++ [EventStream.colon, EventStream.space]) := by decide
  have ends : ascii "\n\n" = [EventStream.lineFeed, EventStream.lineFeed] := by decide
  rw [eventText, id, event, data, ends]
  simp [eventMessage, Message.text, Message.lines, Lines.joined, Field.line]

theorem decimal_length {n : Nat} (below : n < M.ulongs) : (decimal n).length ≤ 20 := by
  have small : n < 10 ^ 20 := by
    refine Nat.lt_of_lt_of_le below ?_
    cases M with
    | ilp32 => decide
    | lp64 => decide
  rw [decimal, List.length_map]
  exact (Nat.length_toDigits_le_iff (by decide) (by decide)).mpr small

theorem eventText_length (told : e.Told M) : (eventText e).length ≤ 320 := by
  have digits := decimal_length told.id
  have type : e.type.length < 20 := told.typeFits
  have data : e.data.length < 256 := told.dataFits
  have fixed : (ascii "id: ").length = 4 ∧ (ascii "\nevent: ").length = 8 ∧
      (ascii "\ndata: ").length = 7 ∧ (ascii "\n\n").length = 2 := by decide
  simp only [eventText, List.length_append, fixed]
  omega

theorem print_fits {body : ResponseBody} {text : Bytes}
    (fits : body.used + text.length < leApiResponseBytes) :
    body.print text = ⟨body.text ++ text, body.used + text.length⟩ := by
  rw [ResponseBody.print, List.take_of_length_le (by omega)]

theorem printEvents_fits {listed : List LeEvent} (told : ∀ e ∈ listed, e.Told M)
    {body : ResponseBody} (fits : body.used + 320 * listed.length < leApiResponseBytes) :
    printEvents listed body =
      ⟨body.text ++ listed.flatMap eventText,
        body.used + (listed.flatMap eventText).length⟩ ∧
      (listed.flatMap eventText).length ≤ 320 * listed.length := by
  induction listed generalizing body with
  | nil => exact ⟨by rw [List.flatMap_nil, List.append_nil]; rfl, Nat.zero_le _⟩
  | cons e listed ih =>
      have short := eventText_length (told e List.mem_cons_self)
      rw [List.length_cons] at fits
      have printed := @print_fits body (eventText e) (by omega)
      obtain ⟨later, bound⟩ := @ih (fun other here => told other (List.mem_cons_of_mem _ here))
        ⟨body.text ++ eventText e, body.used + (eventText e).length⟩ (by dsimp only; omega)
      rw [List.flatMap_cons, List.length_append]
      refine ⟨?_, by rw [List.length_cons]; omega⟩
      rw [printEvents, List.foldl_cons, printed]
      refine later.trans ?_
      rw [List.append_assoc, Nat.add_assoc]

end Told

/-! ### What is listed -/

/-- The events listed after these publications: so many from the number `k` on. -/
structure Lists (M : DataModel) (published : Publications) (listed : List LeEvent)
    (k len : Nat) : Prop where
  events : listed = ((history M published).drop k).take len
  numbers : listed.map LeEvent.id = (List.range len).map fun j => (k + j + 1) % M.ulongs
  ids : listed.map LeEvent.id = List.range' ((k + 1) % M.ulongs) len
  kept : published.length - leEventCount ≤ k
  near : k ≤ published.length - leEventCount + 1
  told : k + len ≤ published.length
  few : len ≤ eventsListed
  early : published.length ≤ leEventCount → k = 0 ∧ len = min eventsListed published.length

section Listing
variable {M : DataModel} {published : Publications}

theorem retained_id {r : Ring LeEvent leEventCount} (retains : Retains r 0 (history M published))
    {n : Nat} (lower : r.first ≤ n) (upper : n < r.stop) : (r.get n).id = (n + 1) % M.ulongs := by
  have value := retains.value n lower upper
  rw [Nat.sub_zero, history, List.getElem?_mapIdx] at value
  obtain ⟨p, -, same⟩ := Option.map_eq_some_iff.mp value
  rw [← same]
  rfl

theorem eventBusSince_lists (M : DataModel) (published : Publications) :
    ∃ k len, Lists M published
      (eventBusSince M (publishAll M eventBusInit published) 0 eventsListed) k len := by
  obtain ⟨r, numbered, retains, stop, count⟩ := publishAll_numbered M published
  obtain ⟨k, len, slice, listed, early⟩ :=
    numbered.since (by rw [count, stop]) eventsListed
  have large := ulongs_large M
  have width : leEventCount = 64 := rfl
  have whole : r.stop = r.first + r.count := rfl
  have kept := listed.kept
  have told := listed.told
  have near := listed.near
  have numbers : (r.slice k len).map LeEvent.id =
      (List.range len).map fun j => (k + j + 1) % M.ulongs := by
    rw [Ring.slice, List.map_map]
    refine List.map_congr_left fun j inside => ?_
    have below := List.mem_range.mp inside
    exact retained_id retains (by omega) (by omega)
  refine ⟨k, len, ?_, ?_, ?_, ?_, ?_, ?_, listed.few, ?_⟩
  · rw [slice]
    exact retains.slice kept told
  · rw [slice]
    exact numbers
  · rw [slice, numbers, List.range'_eq_map_range]
    refine List.map_congr_left fun j inside => ?_
    exact listed.ids j (List.mem_range.mp inside)
  · omega
  · omega
  · omega
  · intro few
    obtain ⟨first, all⟩ := early (by omega)
    have held : r.count = published.length := by omega
    rw [held] at all
    exact ⟨by omega, all⟩

theorem Lists.newest {listed : List LeEvent} {k len : Nat} (lists : Lists M published listed k len)
    (many : eventsListed < published.length) {e : LeEvent} (member : e ∈ listed) :
    e.id ≠ published.length % M.ulongs := by
  intro same
  have inside := List.mem_map_of_mem (f := LeEvent.id) member
  rw [lists.numbers, same] at inside
  obtain ⟨j, bound, equal⟩ := List.mem_map.mp inside
  have below := List.mem_range.mp bound
  have large := ulongs_large M
  have told := lists.told
  have near := lists.near
  have few := lists.few
  have early := lists.early
  have width : leEventCount = 64 := rfl
  have most : eventsListed = 8 := rfl
  have older : k + j + 1 < published.length := by
    by_cases full : published.length ≤ leEventCount
    · obtain ⟨first, all⟩ := early full
      omega
    · omega
  have apart : (published.length - (k + j + 1)) % M.ulongs = 0 :=
    Nat.sub_mod_eq_zero_of_mod_eq equal.symm
  have kept := lists.kept
  rw [Nat.mod_eq_of_lt (by omega)] at apart
  omega

end Listing

/-! ### Every run -/

section Response
variable {M : DataModel} {published : List Publication}

theorem getEvents_body {listed : List LeEvent} (told : ∀ e ∈ listed, e.Told M)
    (few : listed.length ≤ eventsListed) :
    (printEvents listed ⟨[], 0⟩).print statusText =
      ⟨EventStream.render (listed.map eventMessage ++ [statusMessage]),
        (EventStream.render (listed.map eventMessage ++ [statusMessage])).length⟩ ∧
      (EventStream.render (listed.map eventMessage ++ [statusMessage])).length ≤
        leApiResponseBytes := by
  have width : leApiResponseBytes = 131072 := rfl
  have most : eventsListed = 8 := rfl
  have status : statusText.length ≤ 64 := by decide
  have last : statusText = statusMessage.text := by decide
  have texts : EventStream.render (listed.map eventMessage ++ [statusMessage]) =
      listed.flatMap eventText ++ statusText := by
    have each : listed.flatMap eventText = listed.flatMap fun e => (eventMessage e).text :=
      congrArg (listed.flatMap ·) (funext eventText_eq)
    rw [EventStream.render, List.flatMap_append, List.flatMap_map, List.flatMap_singleton, last,
      each]
  obtain ⟨printed, bound⟩ := @printEvents_fits _ _ told ⟨[], 0⟩ (by dsimp only; omega)
  rw [printed, texts, print_fits (by dsimp only; omega), List.length_append]
  refine ⟨?_, by omega⟩
  rw [List.nil_append, Nat.zero_add]

theorem listed_told {listed : List LeEvent} {k len : Nat}
    (lists : Lists M (published.map Publication.event) listed k len) :
    ∀ e ∈ listed, e.Told M := by
  intro e member
  rw [lists.events] at member
  exact history_told (List.mem_of_mem_drop (List.mem_of_mem_take member))

end Response

def messagesAfter (M : DataModel) (published : List Publication) : Option (List Message) :=
  EventStream.read (getEvents M (busAfter M published)).body

/--
The response is an event stream of the listed events, by increasing id, and the status; the
length that it reports is its own, and fits.
-/
def WellFormed (M : DataModel) (b : LeEventBus) : Prop :=
  let listed := eventBusSince M b 0 eventsListed
  EventStream.read (getEvents M b).body = some (listed.map eventMessage ++ [statusMessage]) ∧
    (listed.map LeEvent.id).Pairwise (· < ·) ∧
    (getEvents M b).length = (getEvents M b).body.length ∧
    (getEvents M b).length ≤ leApiResponseBytes

/-- The response after some publication from its own on tells the event. -/
def Seen (M : DataModel) (published : List Publication) (i : Nat) (p : Publication) : Prop :=
  ∃ n, i < n ∧ n ≤ published.length ∧
    ∃ messages, messagesAfter M (published.take n) = some messages ∧
      eventMessage (eventAt M i p.event) ∈ messages

def EverySeen (M : DataModel) (published : List Publication) : Prop :=
  ∀ i p, published[i]? = some p → Seen M published i p

theorem getEvents_wellFormed (M : DataModel) (published : List Publication) :
    WellFormed M (busAfter M published) := by
  obtain ⟨k, len, lists⟩ := eventBusSince_lists M (published.map Publication.event)
  change Lists M _ (eventBusSince M (busAfter M published) 0 eventsListed) k len at lists
  have told := listed_told lists
  have few : (eventBusSince M (busAfter M published) 0 eventsListed).length ≤ eventsListed := by
    have same := congrArg List.length lists.ids
    rw [List.length_map, List.length_range'] at same
    exact same.trans_le lists.few
  obtain ⟨body, bound⟩ := getEvents_body told few
  have sound : ∀ m ∈ (eventBusSince M (busAfter M published) 0 eventsListed).map eventMessage ++
      [statusMessage], m.Sound := by
    intro m member
    rcases List.mem_append.mp member with here | here
    · obtain ⟨e, listed, rfl⟩ := List.mem_map.mp here
      exact eventMessage_sound (told e listed)
    · rw [List.mem_singleton.mp here]
      exact statusMessage_sound
  have response : getEvents M (busAfter M published) = ⟨200, ascii "text/event-stream",
      EventStream.render
        ((eventBusSince M (busAfter M published) 0 eventsListed).map eventMessage ++
          [statusMessage]),
      (EventStream.render
        ((eventBusSince M (busAfter M published) 0 eventsListed).map eventMessage ++
          [statusMessage])).length⟩ := by
    unfold getEvents
    dsimp only
    rw [body]
  refine ⟨?_, ?_, ?_, ?_⟩
  · rw [response]
    exact EventStream.read_render sound
  · rw [lists.ids]
    exact List.pairwise_lt_range'
  · rw [response]
  · rw [response]
    exact bound

theorem messagesAfter_eq (M : DataModel) (published : List Publication) :
    messagesAfter M published =
      some ((eventBusSince M (busAfter M published) 0 eventsListed).map eventMessage ++
        [statusMessage]) :=
  (getEvents_wellFormed M published).1

theorem eventMessage_id {e e' : LeEvent} (same : eventMessage e = eventMessage e') :
    e.id = e'.id := by
  have first := congrArg Field.value (List.cons.inj same).1
  rw [← decimalValue_decimal e.id, ← decimalValue_decimal e'.id]
  exact congrArg decimalValue first

theorem everySeen_few {M : DataModel} {published : List Publication}
    (seen : EverySeen M published) : published.length ≤ eventsListed := by
  by_contra many
  rw [Nat.not_le] at many
  have last : published[published.length - 1]? = some (published[published.length - 1]) :=
    List.getElem?_eq_getElem (by omega)
  obtain ⟨n, after, within, messages, told, member⟩ := seen _ _ last
  have whole : n = published.length := by omega
  rw [whole, List.take_length, messagesAfter_eq] at told
  cases told
  obtain ⟨k, len, lists⟩ := eventBusSince_lists M (published.map Publication.event)
  rcases List.mem_append.mp member with here | here
  · obtain ⟨e, listed, same⟩ := List.mem_map.mp here
    refine lists.newest (by rw [List.length_map]; exact many) listed ?_
    have id := eventMessage_id same
    rw [List.length_map, id, eventAt]
    dsimp only
    rw [Nat.sub_add_cancel (by omega)]
  · have fields := congrArg List.length (List.mem_singleton.mp here)
    exact absurd fields (by decide : (3 : Nat) ≠ 2)

theorem few_everySeen {M : DataModel} {published : List Publication}
    (few : published.length ≤ eventsListed) : EverySeen M published := by
  intro i p here
  have inside : i < published.length := (List.getElem?_eq_some_iff.mp here).1
  have whole := messagesAfter_eq M (published.take published.length)
  rw [List.take_length] at whole
  refine ⟨published.length, inside, Nat.le_refl _, _, by rw [List.take_length]; exact whole, ?_⟩
  · refine List.mem_append_left _ (List.mem_map_of_mem ?_)
    obtain ⟨k, len, lists⟩ := eventBusSince_lists M (published.map Publication.event)
    have early := lists.early (by rw [List.length_map]; exact few.trans (by decide))
    rw [List.length_map, Nat.min_eq_right few] at early
    rw [busAfter, lists.events, early.1, early.2, List.drop_zero]
    have whole : (history M (published.map Publication.event)).length = published.length := by
      rw [history, List.length_mapIdx, List.length_map]
    rw [← whole, List.take_length]
    refine List.mem_of_getElem? (i := i) ?_
    rw [history, List.getElem?_mapIdx, List.getElem?_map, here]
    rfl

/--
A client that asks after every publication is told of all of them exactly in the runs of no more
publications than a response lists; every response is well formed.
-/
theorem getEvents_everySeen (M : DataModel) (published : List Publication) :
    (EverySeen M published ↔ published.length ≤ eventsListed) ∧
      WellFormed M (busAfter M published) :=
  ⟨⟨everySeen_few, few_everySeen⟩, getEvents_wellFormed M published⟩

/-- The ninth event of a run is not told. -/
theorem getEvents_everySeen_ninth : ¬ EverySeen .ilp32 (List.replicate 9 .device) :=
  fun seen => absurd (everySeen_few seen) (by decide)

end LibreEcho.Events
