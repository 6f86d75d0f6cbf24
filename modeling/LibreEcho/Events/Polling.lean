import LibreEcho.Events.Bus
import LibreEcho.Lib.Runs

/-!
A client that polls the event bus.

It passes the id of the last event it received. What it has not received when a call moves past it
was overwritten before the call; the one exception is a call that finds the counter of the ids
wrapped.
-/
namespace LibreEcho.Events
open RingBuffer

inductive Action where
  | publish (type data : Bytes)
  /-- The client calls `event_bus_since` with room for so many events. -/
  | poll (capacity : Nat)
deriving DecidableEq

structure PollCall where
  published : Nat
  before : List LeEvent
  capacity : Nat
  got : List LeEvent

structure Polling where
  bus : LeEventBus
  published : Publications
  /-- The id of the last event received. -/
  id : Nat
  received : List LeEvent
  calls : List PollCall

def Polling.start : Polling :=
  ⟨eventBusInit, [], 0, [], []⟩

section Step
variable (M : DataModel)

def Polling.step (s : Polling) : Action → Polling
  | .publish type data =>
      { s with
        bus := eventBusPublish M s.bus type data
        published := s.published ++ [(type, data)] }
  | .poll capacity =>
      let got := eventBusSince M s.bus s.id capacity
      { s with
        id := (got.getLast?.map (·.id)).getD s.id
        received := s.received ++ got
        calls := s.calls ++ [⟨s.published.length, s.received, capacity, got⟩] }

def Polling.Timely (s : Polling) : Action → Prop
  | .publish _ _ => True
  | .poll _ => s.published.length + 1 < M.ulongs

instance (s : Polling) : ∀ action, Decidable (s.Timely M action)
  | .publish _ _ => isTrue trivial
  | .poll _ => inferInstanceAs (Decidable (_ < _))

end Step

/-- The call passes over the event with this many before it: the event was published and is not
received, though the call has room for it or tells a later one. -/
structure PollCall.Skips (c : PollCall) (n : Nat) : Prop where
  published : n < c.published
  missing : ∀ e ∈ c.before ++ c.got, e.id ≠ n + 1
  passed : c.got.length < c.capacity ∨ ∃ e ∈ c.got, n + 1 < e.id

/-- The events received are published ones, each as it was published and in that order; an event
that a call skips is followed by as many as the bus keeps. -/
structure Polling.Lawful (M : DataModel) (s : Polling) : Prop where
  ordered : s.received.Sublist (history M s.published)
  increasing : s.received.Pairwise (·.id < ·.id)
  skipped : ∀ c ∈ s.calls, ∀ n, c.Skips n → n + 1 + leEventCount ≤ c.published

/-! ### A call -/

section Since
variable {M : DataModel}

theorem Numbered.sinceId {b : LeEventBus} {r : Ring LeEvent leEventCount} (numbered : Numbered M b r)
    (early : r.stop + 1 < M.ulongs) (id z : Nat) :
    eventBusSince M b id z = r.slice (max r.first id) (min z (r.stop - max r.first id)) := by
  have stop : r.stop = r.first + r.count := rfl
  have next := numbered.next
  have count := numbered.count
  have large := ulongs_large M
  have fits : r.count ≤ 64 := r.fits
  rw [Nat.mod_eq_of_lt early] at next
  unfold eventBusSince
  dsimp only
  rw [oldest_id (by omega) (by omega), if_pos (by omega), filter_range'_lt,
    numbered.slice 0 z _ _ (by omega), Nat.mul_zero, Nat.zero_add]
  congr 1 <;> omega

theorem publishAll_since {published : Publications} (early : published.length + 1 < M.ulongs)
    {id : Nat} (inside : id ≤ published.length) (z : Nat) :
    ∃ k len, eventBusSince M (publishAll M eventBusInit published) id z =
        ((history M published).drop k).take len ∧ id ≤ k ∧ k + len ≤ published.length ∧
      (k = id ∨ k + leEventCount ≤ published.length) ∧ (len = z ∨ len < z ∧ k + len = published.length) := by
  obtain ⟨r, numbered, retains, stop, count⟩ := publishAll_numbered M published
  have whole : r.stop = r.first + r.count := rfl
  have size : leEventCount = 64 := rfl
  refine ⟨max r.first id, min z (r.stop - max r.first id), ?_, Nat.le_max_right _ _, ?_, ?_, ?_⟩
  · rw [numbered.sinceId (by omega), retains.slice (Nat.le_max_left _ _) (by omega), Nat.sub_zero]
  · omega
  · omega
  · omega

end Since

/-! ### Runs -/

section Runs
variable {M : DataModel}

theorem history_concat (M : DataModel) (published : Publications) (p : Bytes × Bytes) :
    history M (published ++ [p]) = history M published ++ [eventAt M published.length p] := by
  rw [history, List.mapIdx_concat, history]

theorem history_length (M : DataModel) (published : Publications) :
    (history M published).length = published.length :=
  List.length_mapIdx

section Ids
variable {published : Publications} (early : published.length + 1 < M.ulongs)
include early

theorem history_id {n : Nat} {e : LeEvent} (told : (history M published)[n]? = some e) :
    e.id = n + 1 := by
  rw [history, List.getElem?_mapIdx, Option.map_eq_some_iff] at told
  obtain ⟨p, here, rfl⟩ := told
  obtain ⟨inside, -⟩ := List.getElem?_eq_some_iff.mp here
  exact Nat.mod_eq_of_lt (by omega)

theorem history_increasing : (history M published).Pairwise (·.id < ·.id) := by
  rw [List.pairwise_iff_getElem]
  intro i j low high before
  rw [history_id early (List.getElem?_eq_getElem low), history_id early (List.getElem?_eq_getElem high)]
  exact Nat.succ_lt_succ before

theorem part_id {k len : Nat} {e : LeEvent} (told : e ∈ ((history M published).drop k).take len) :
    ∃ n, k ≤ n ∧ n < k + len ∧ e.id = n + 1 := by
  obtain ⟨j, here⟩ := List.mem_iff_getElem?.mp told
  rw [List.getElem?_take] at here
  split at here
  case isTrue inside =>
    rw [List.getElem?_drop] at here
    exact ⟨k + j, Nat.le_add_right _ _, Nat.add_lt_add_left inside k, history_id early here⟩
  case isFalse => exact nomatch here

theorem part_told {k len n : Nat} (inside : k + len ≤ published.length) (low : k ≤ n)
    (high : n < k + len) : ∃ e ∈ ((history M published).drop k).take len, e.id = n + 1 := by
  have there : n < (history M published).length := by
    rw [history_length]
    omega
  refine ⟨(history M published)[n], ?_, history_id early (List.getElem?_eq_getElem there)⟩
  apply List.mem_iff_getElem?.mpr
  refine ⟨n - k, ?_⟩
  rw [List.getElem?_take_of_lt (by omega), List.getElem?_drop, Nat.add_sub_cancel' low]
  exact List.getElem?_eq_getElem there

theorem part_last {k len : Nat} (inside : k + len ≤ published.length) (id : Nat) :
    (((((history M published).drop k).take len).getLast?).map (·.id)).getD id =
      if len = 0 then id else k + len := by
  have length : (((history M published).drop k).take len).length = len := by
    rw [List.length_take, List.length_drop, history_length]
    omega
  rw [List.getLast?_eq_getElem?, length]
  split
  case isTrue none =>
    subst none
    rfl
  case isFalse some =>
    have there : k + (len - 1) < (history M published).length := by
      rw [history_length]
      omega
    rw [List.getElem?_take_of_lt (by omega), List.getElem?_drop, List.getElem?_eq_getElem there,
      Option.map_some, Option.getD_some, history_id early (List.getElem?_eq_getElem there)]
    omega

end Ids

/-- The client is behind the events up to its id; of these it has received all but those that were
overwritten by then. -/
structure Polling.Behind (M : DataModel) (s : Polling) : Prop where
  bus : s.bus = publishAll M eventBusInit s.published
  inside : s.id ≤ s.published.length
  ordered : s.received.Sublist ((history M s.published).take s.id)
  increasing : s.received.Pairwise (·.id < ·.id)
  within : ∀ e ∈ s.received, e.id ≤ s.id
  missed : ∀ n < s.id, (∀ e ∈ s.received, e.id ≠ n + 1) →
    n + 1 + leEventCount ≤ s.published.length
  skipped : ∀ c ∈ s.calls, ∀ n, c.Skips n → n + 1 + leEventCount ≤ c.published

theorem Polling.behind_start (M : DataModel) : Polling.start.Behind M where
  bus := rfl
  inside := Nat.le_refl _
  ordered := List.Sublist.refl _
  increasing := .nil
  within := nofun
  missed := nofun
  skipped := nofun

theorem Polling.Behind.publish {s : Polling} (behind : s.Behind M) (type data : Bytes) :
    (s.step M (.publish type data)).Behind M where
  bus := by
    simp only [Polling.step, publishAll, List.foldl_append, List.foldl_cons, List.foldl_nil]
    rw [behind.bus, publishAll]
  inside := by
    have := behind.inside
    simp only [Polling.step, List.length_append, List.length_singleton]
    omega
  ordered := by
    simp only [Polling.step]
    rw [history_concat, List.take_append_of_le_length (by rw [history_length]; exact behind.inside)]
    exact behind.ordered
  increasing := behind.increasing
  within := behind.within
  missed n below missing := by
    have := behind.missed n below missing
    simp only [Polling.step, List.length_append, List.length_singleton]
    omega
  skipped := behind.skipped

theorem Polling.Behind.poll {s : Polling} (behind : s.Behind M) {capacity : Nat}
    (early : s.published.length + 1 < M.ulongs) : (s.step M (.poll capacity)).Behind M := by
  have inside := behind.inside
  obtain ⟨k, len, got, after, told, start, stop⟩ := publishAll_since early inside capacity
  have new : (s.step M (.poll capacity)).id = if len = 0 then s.id else k + len := by
    simp only [Polling.step, behind.bus, got]
    exact part_last early told s.id
  have received : (s.step M (.poll capacity)).received =
      s.received ++ ((history M s.published).drop k).take len := by
    simp only [Polling.step, behind.bus, got]
  have length : (((history M s.published).drop k).take len).length = len := by
    rw [List.length_take, List.length_drop, history_length]
    omega
  -- What is not received up to the end of the call was overwritten.
  have passed (n : Nat) (below : n < k + len)
      (missing : ∀ e ∈ s.received ++ ((history M s.published).drop k).take len, e.id ≠ n + 1) :
      n + 1 + leEventCount ≤ s.published.length := by
    obtain ⟨before, now⟩ := List.forall_mem_append.mp missing
    by_cases old : n < s.id
    · exact behind.missed n old before
    by_cases new : k ≤ n
    · obtain ⟨e, member, id⟩ := part_told early told new below
      exact absurd id (now e member)
    · omega
  refine ⟨behind.bus, ?_, ?_, ?_, ?_, ?_, ?_⟩
  · rw [new]
    change _ ≤ s.published.length
    split <;> omega
  · rw [received, new]
    change List.Sublist _ ((history M s.published).take _)
    split
    case isTrue none =>
      rw [none, List.take_zero, List.append_nil]
      exact behind.ordered
    case isFalse some =>
      have split : (history M s.published).take (k + len) =
          (history M s.published).take k ++ ((history M s.published).drop k).take len := List.take_add
      rw [split]
      exact (behind.ordered.trans (List.take_sublist_take_left after)).append (.refl _)
  · rw [received, List.pairwise_append]
    refine ⟨behind.increasing, ?_, fun e before e' now => ?_⟩
    · exact (history_increasing early).sublist ((List.take_sublist _ _).trans (List.drop_sublist _ _))
    · obtain ⟨n, low, -, id⟩ := part_id early now
      have := behind.within e before
      omega
  · rw [received, new]
    intro e member
    rcases List.mem_append.mp member with before | now
    · have := behind.within e before
      split <;> omega
    · obtain ⟨n, low, high, id⟩ := part_id early now
      rw [id]
      split <;> omega
  · rw [received, new]
    intro n below missing
    refine passed n ?_ missing
    split at below <;> omega
  · intro c member n skips
    simp only [Polling.step, List.mem_append, List.mem_singleton] at member
    rcases member with earlier | rfl
    · exact behind.skipped c earlier n skips
    · rw [behind.bus, got] at skips
      have published : n < s.published.length := skips.published
      refine passed n ?_ skips.missing
      rcases skips.passed with room | ⟨e, member, later⟩
      · replace room : (((history M s.published).drop k).take len).length < capacity := room
        omega
      · obtain ⟨m, -, high, id⟩ := part_id early member
        omega

theorem Polling.Behind.step {s : Polling} (behind : s.Behind M) {action : Action}
    (timely : s.Timely M action) : (s.step M action).Behind M := by
  cases action with
  | publish type data => exact behind.publish type data
  | poll capacity => exact behind.poll timely

theorem Polling.Behind.lawful {s : Polling} (behind : s.Behind M) : s.Lawful M where
  ordered := behind.ordered.trans (List.take_sublist _ _)
  increasing := behind.increasing
  skipped := behind.skipped

end Runs

/-- A client that finds no wrapped counter misses only what was overwritten. -/
theorem polling_lawful (M : DataModel) (actions : List Action)
    (timely : Runs.Admits (Polling.step M) (Polling.Timely M) .start actions) :
    (Runs.run (Polling.step M) .start actions).Lawful M :=
  (Runs.run_invariant (Polling.step M) (fun _ _ behind timely => behind.step timely)
    (Polling.behind_start M) timely).lawful

theorem polling_lawful_three :
    let actions := [.publish [0x61] [], .poll 1, .publish [0x62] [], .publish [0x63] [0x7b], .poll 1,
      .poll 4]
    Runs.Admits (Polling.step .ilp32) (Polling.Timely .ilp32) .start actions ∧
      (Runs.run (Polling.step .ilp32) .start actions).Lawful .ilp32 ∧
      (Runs.run (Polling.step .ilp32) .start actions).received =
        [⟨1, [0x61], []⟩, ⟨2, [0x62], []⟩, ⟨3, [0x63], [0x7b]⟩] :=
  ⟨by decide, polling_lawful .ilp32 _ (by decide), by decide⟩

/-! ### A wrapped counter -/

def emptyEvents (n : Nat) : Publications :=
  List.replicate n ([], [])

theorem run_publish (M : DataModel) (s : Polling) (n : Nat) :
    Runs.run (Polling.step M) s (List.replicate n (.publish [] [])) =
      { s with
        bus := publishAll M s.bus (emptyEvents n)
        published := s.published ++ emptyEvents n } := by
  induction n generalizing s with
  | zero => simp [emptyEvents, publishAll]
  | succ n ih =>
      rw [List.replicate_succ, Runs.run_cons, ih]
      simp [Polling.step, emptyEvents, publishAll, List.replicate_succ]

theorem wrapped_since (capacity : Nat) :
    eventBusSince .ilp32 (publishAll .ilp32 eventBusInit (emptyEvents (2 ^ 32 - 1))) 0 capacity =
      [] := by
  obtain ⟨r, numbered, -, stop, count⟩ := publishAll_numbered .ilp32 (emptyEvents (2 ^ 32 - 1))
  rw [emptyEvents, List.length_replicate] at stop count
  have next := numbered.next
  have held := numbered.count
  rw [stop] at next
  rw [count] at held
  unfold eventBusSince
  rw [next, held]
  simp [DataModel.ulongs, leEventCount]

/-- The newest event is skipped though nothing was published behind it. -/
theorem polling_lawful_wrapped :
    ¬(Runs.run (Polling.step .ilp32) .start
      (List.replicate (2 ^ 32 - 1) (.publish [] []) ++ [.poll 8])).Lawful .ilp32 := by
  intro lawful
  have call : ⟨2 ^ 32 - 1, [], 8, []⟩ ∈ (Runs.run (Polling.step .ilp32) .start
      (List.replicate (2 ^ 32 - 1) (.publish [] []) ++ [.poll 8])).calls := by
    rw [Runs.run_concat, run_publish]
    simp only [Polling.step, Polling.start, List.nil_append, List.mem_singleton]
    rw [wrapped_since, emptyEvents, List.length_replicate]
  have skips : PollCall.Skips ⟨2 ^ 32 - 1, [], 8, []⟩ (2 ^ 32 - 2) :=
    ⟨by decide, nofun, .inl (by decide)⟩
  exact absurd (lawful.skipped _ call _ skips) (by decide)

end LibreEcho.Events
