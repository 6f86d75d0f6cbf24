import LibreEcho.Lib.ByteText
import LibreEcho.Lib.RingBuffer
import Mathlib

/-!
The event bus of `event_bus.c`.

Ids are an `unsigned long` that wraps; the slot of an event follows from its id. The ring of the
bus holds the newest events ever published, whatever their ids have become.
-/
namespace LibreEcho.Events
open RingBuffer

abbrev Bytes := List UInt8

def leEventCount : Nat := 64

instance : NeZero leEventCount := ⟨by decide⟩

/-- How wide an `unsigned long` is. -/
inductive DataModel where
  | ilp32 | lp64
deriving DecidableEq

/-- One more than `ULONG_MAX`. -/
def DataModel.ulongs : DataModel → Nat
  | .ilp32 => 2 ^ 32
  | .lp64 => 2 ^ 64

structure LeEvent where
  id : Nat
  type : Bytes
  data : Bytes
deriving DecidableEq

def LeEvent.zero : LeEvent :=
  ⟨0, [], []⟩

def leEventTypeMax : Nat := 20
def leEventDataMax : Nat := 256

structure LeEventBus where
  items : Fin leEventCount → LeEvent
  next : Nat
  count : Nat

def eventBusInit : LeEventBus where
  items := fun _ => .zero
  next := 1
  count := 0

section Bus
variable (M : DataModel)

def eventBusPublish (b : LeEventBus) (type data : Bytes) : LeEventBus where
  items := Function.update b.items (Fin.ofNat leEventCount ((b.next + M.ulongs - 1) % M.ulongs))
    ⟨b.next, type.take (leEventTypeMax - 1), data.take (leEventDataMax - 1)⟩
  next := (b.next + 1) % M.ulongs
  count := if b.count < leEventCount then b.count + 1 else b.count

/-- The loop runs over the ids from the oldest on and stops after `z` events. -/
def eventBusSince (b : LeEventBus) (id z : Nat) : List LeEvent :=
  let first := (b.next + M.ulongs - b.count) % M.ulongs
  (((List.range' first (b.next - first)).filter (id < ·)).take z).map fun i =>
    b.items (Fin.ofNat leEventCount (i - 1))

/-! ### The history -/

abbrev Publications := List (Bytes × Bytes)

def publishAll (b : LeEventBus) (published : Publications) : LeEventBus :=
  published.foldl (fun b p => eventBusPublish M b p.1 p.2) b

def eventAt (i : Nat) (p : Bytes × Bytes) : LeEvent :=
  ⟨(i + 1) % M.ulongs, p.1.take (leEventTypeMax - 1), p.2.take (leEventDataMax - 1)⟩

def history (published : Publications) : List LeEvent :=
  published.mapIdx (eventAt M)

/-- The ring that the bus is, its events numbered from 0 on. -/
structure Numbered (b : LeEventBus) (r : Ring LeEvent leEventCount) : Prop where
  items : b.items = r.slots
  next : b.next = (r.stop + 1) % M.ulongs
  count : b.count = r.count

end Bus

section Ids
variable {M : DataModel}

theorem ulongs_count (M : DataModel) : ∃ k, M.ulongs = leEventCount * k := by
  cases M with
  | ilp32 => exact ⟨2 ^ 26, by decide⟩
  | lp64 => exact ⟨2 ^ 58, by decide⟩

theorem ulongs_large (M : DataModel) : 2 ^ 32 ≤ M.ulongs := by
  cases M with
  | ilp32 => exact Nat.le_refl _
  | lp64 => decide

theorem slot_mod (M : DataModel) (n : Nat) :
    Fin.ofNat leEventCount (n % M.ulongs) = Fin.ofNat leEventCount n := by
  obtain ⟨k, width⟩ := ulongs_count M
  refine Fin.ext ?_
  change n % M.ulongs % leEventCount = n % leEventCount
  rw [width, Nat.mod_mul_right_mod]

theorem published_slot (M : DataModel) (n : Nat) :
    Fin.ofNat leEventCount (((n + 1) % M.ulongs + M.ulongs - 1) % M.ulongs) =
      Fin.ofNat leEventCount n := by
  have large := ulongs_large M
  have same : ((n + 1) % M.ulongs + M.ulongs - 1) % M.ulongs = n % M.ulongs := by
    have split := Nat.mod_add_div (n + 1) M.ulongs
    have low : ((n + 1) % M.ulongs + M.ulongs - 1) % M.ulongs =
        ((n + 1) % M.ulongs + M.ulongs - 1 + M.ulongs * ((n + 1) / M.ulongs)) % M.ulongs :=
      (Nat.add_mul_mod_self_left _ _ _).symm
    rw [low]
    have regroup : (n + 1) % M.ulongs + M.ulongs - 1 + M.ulongs * ((n + 1) / M.ulongs) =
        n + M.ulongs := by omega
    rw [regroup, Nat.add_mod_right]
  rw [same, slot_mod]

end Ids

section Publishing
variable {M : DataModel} {b : LeEventBus} {r : Ring LeEvent leEventCount}

theorem numbered_init (M : DataModel) :
    Numbered M eventBusInit ⟨fun _ => .zero, 0, 0, Nat.zero_le _⟩ where
  items := rfl
  next := by
    have large := ulongs_large M
    exact (Nat.mod_eq_of_lt (Nat.lt_of_lt_of_le (by decide : 1 < 2 ^ 32) large)).symm
  count := rfl

theorem Numbered.publish (numbered : Numbered M b r) (p : Bytes × Bytes) :
    Numbered M (eventBusPublish M b p.1 p.2) (r.push (eventAt M r.stop p)) := by
  have fits := r.fits
  have slot : Fin.ofNat leEventCount ((b.next + M.ulongs - 1) % M.ulongs) =
      Fin.ofNat leEventCount r.stop := by
    rw [numbered.next]
    exact published_slot M r.stop
  refine ⟨?_, ?_, ?_⟩
  · have slots : (r.push (eventAt M r.stop p)).slots =
        Function.update r.slots (Fin.ofNat leEventCount r.stop) (eventAt M r.stop p) := by
      unfold Ring.push
      split <;> rfl
    rw [slots]
    simp only [eventBusPublish]
    rw [slot, numbered.items, numbered.next]
    rfl
  · simp only [eventBusPublish]
    rw [numbered.next, Ring.push_stop, Nat.mod_add_mod]
  · simp only [eventBusPublish]
    rw [numbered.count, Ring.push_count]
    split <;> omega

theorem publishAll_numbered (M : DataModel) (published : Publications) :
    ∃ r, Numbered M (publishAll M eventBusInit published) r ∧
      Retains r 0 (history M published) ∧ r.stop = published.length ∧
      r.count = min leEventCount published.length := by
  induction published using List.reverseRecOn with
  | nil =>
      refine ⟨_, numbered_init M, ?_, rfl, rfl⟩
      exact Retains.primeAt ⟨fun _ => LeEvent.zero, 0, 0, Nat.zero_le _⟩ 0
  | append_singleton published p ih =>
      obtain ⟨r, numbered, retains, stop, count⟩ := ih
      refine ⟨r.push (eventAt M r.stop p), ?_, ?_, ?_, ?_⟩
      · rw [publishAll, List.foldl_append]
        exact numbered.publish p
      · rw [history, List.mapIdx_concat, ← stop]
        exact retains.push _
      · rw [Ring.push_stop, stop, List.length_append, List.length_singleton]
      · rw [Ring.push_count, count, List.length_append, List.length_singleton]
        omega

end Publishing

/-! ### Reading -/

section Since
variable {M : DataModel} {b : LeEventBus} {r : Ring LeEvent leEventCount}

theorem filter_range'_lt (id first len : Nat) :
    (List.range' first len).filter (id < ·) =
      List.range' (max first (id + 1)) (first + len - max first (id + 1)) := by
  induction len generalizing first with
  | zero =>
      have none : first + 0 - max first (id + 1) = 0 := by omega
      rw [none, List.range'_zero, List.range'_zero, List.filter_nil]
  | succ len ih =>
      rw [List.range'_succ, List.filter_cons, ih]
      by_cases behind : id < first
      · have rest : first + 1 + len - max (first + 1) (id + 1) = len := by omega
        have whole : first + (len + 1) - max first (id + 1) = len + 1 := by omega
        rw [if_pos (decide_eq_true behind), rest, whole, Nat.max_eq_left behind,
          Nat.max_eq_left (Nat.succ_le_succ (Nat.le_of_lt behind)), List.range'_succ]
      · have same : max (first + 1) (id + 1) = max first (id + 1) := by omega
        rw [if_neg (by simpa using Nat.not_lt.mp behind), same, Nat.add_right_comm, Nat.add_assoc]

/-- What is listed: the events from the number `from` on, their ids counted without a wrap. -/
structure Listed (M : DataModel) (r : Ring LeEvent leEventCount) (z k len : Nat) : Prop where
  kept : r.first ≤ k
  near : k ≤ r.first + 1
  told : k + len ≤ r.stop
  few : len ≤ z
  ids : ∀ j < len, (k + j + 1) % M.ulongs = (k + 1) % M.ulongs + j

theorem slot_turns (M : DataModel) (turns n : Nat) :
    Fin.ofNat leEventCount n = Fin.ofNat leEventCount (M.ulongs * turns + n) := by
  rw [← slot_mod M n, ← slot_mod M (M.ulongs * turns + n), Nat.mul_add_mod]

theorem oldest_id {next count : Nat} (below : next < M.ulongs) (fits : count ≤ M.ulongs) :
    (next + M.ulongs - count) % M.ulongs =
      if count ≤ next then next - count else next + M.ulongs - count := by
  split
  case isTrue inside =>
      have regroup : next + M.ulongs - count = next - count + M.ulongs := by omega
      rw [regroup, Nat.add_mod_right, Nat.mod_eq_of_lt (by omega)]
  case isFalse outside => exact Nat.mod_eq_of_lt (by omega)

theorem Numbered.slice (numbered : Numbered M b r) (turns z start len : Nat) (positive : 1 ≤ start) :
    ((List.range' start len).take z).map (fun i => b.items (Fin.ofNat leEventCount (i - 1))) =
      r.slice (M.ulongs * turns + start - 1) (min z len) := by
  rw [List.range'_eq_map_range, ← List.map_take, List.take_range, List.map_map, Ring.slice]
  refine List.map_congr_left fun j _ => ?_
  rw [Function.comp_apply, Ring.get, numbered.items, slot_turns M turns (start + j - 1)]
  have regroup : M.ulongs * turns + (start + j - 1) = M.ulongs * turns + start - 1 + j := by omega
  rw [regroup]

theorem Numbered.since (numbered : Numbered M b r) (held : r.count = min leEventCount r.stop)
    (z : Nat) :
    ∃ k len, eventBusSince M b 0 z = r.slice k len ∧ Listed M r z k len ∧
      (r.stop + 1 < M.ulongs → k = r.first ∧ len = min z r.count) := by
  have large := ulongs_large M
  have fits : r.count ≤ 64 := r.fits
  have stop : r.stop = r.first + r.count := rfl
  have held : r.count = min 64 r.stop := held
  have some (empty : r.count = 0) : (r.stop + 1) % M.ulongs = 1 := by
    have none : r.stop = 0 := by omega
    rw [none, Nat.mod_eq_of_lt (by omega)]
  have below : (r.stop + 1) % M.ulongs < M.ulongs := Nat.mod_lt _ (by omega)
  have whole := Nat.mod_add_div (r.stop + 1) M.ulongs
  generalize (r.stop + 1) / M.ulongs = turns at whole
  have next := numbered.next
  have count := numbered.count
  rw [← next] at below whole some
  unfold eventBusSince
  dsimp only
  rw [oldest_id below (by omega), filter_range'_lt, Nat.zero_add]
  by_cases inside : b.count ≤ b.next
  · rw [if_pos inside, numbered.slice turns z _ _ (Nat.le_max_right _ _)]
    generalize start : max (b.next - b.count) 1 = s
    have positive : 1 ≤ s := by omega
    refine ⟨_, _, rfl, ⟨?_, ?_, ?_, Nat.min_le_left _ _, fun j below' => ?_⟩, ?_⟩
    · omega
    · omega
    · omega
    · have turn (i : Nat) (small : i < M.ulongs) : (M.ulongs * turns + i) % M.ulongs = i := by
        rw [Nat.mul_add_mod, Nat.mod_eq_of_lt small]
      have regroup : M.ulongs * turns + s - 1 + j + 1 = M.ulongs * turns + (s + j) := by omega
      have regroup' : M.ulongs * turns + s - 1 + 1 = M.ulongs * turns + s := by omega
      rw [regroup, regroup', turn _ (by omega), turn _ (by omega)]
    · intro early
      rw [Nat.mod_eq_of_lt early] at next
      have first : turns = 0 := by
        by_contra some
        have := Nat.le_mul_of_pos_right M.ulongs (Nat.pos_of_ne_zero some)
        omega
      subst first
      omega
  · rw [if_neg inside]
    generalize start : max (b.next + M.ulongs - b.count) 1 = s
    have none : b.next + M.ulongs - b.count + (b.next - (b.next + M.ulongs - b.count)) - s = 0 := by
      omega
    rw [none]
    refine ⟨r.first, 0, ?_, ⟨Nat.le_refl _, by omega, by omega, Nat.zero_le _, nofun⟩, fun early => ?_⟩
    · rw [List.range'_zero, List.take_nil]
      rfl
    rw [Nat.mod_eq_of_lt early] at next
    omega

end Since

end LibreEcho.Events
