import Mathlib

/-!
Readers that take messages off the front of a growing buffer.

A parser of the buffer is stable if what it decided stands when more arrives.
The messages taken are then those of the whole stream, however the stream was
cut into reads and whenever the reader looked at its buffer.
-/
namespace Framing
universe u v
variable {α : Type u} {β : Type v}

inductive Verdict (β : Type v) where
  | more
  | bad
  | done (used : Nat) (message : β)
deriving DecidableEq, Repr

structure Stable (parse : List α → Verdict β) : Prop where
  empty : parse [] = .more
  used : ∀ {s n m}, parse s = .done n m → 0 < n ∧ n ≤ s.length
  done : ∀ {s n m} (t : List α), parse s = .done n m → parse (s ++ t) = .done n m
  bad : ∀ {s} (t : List α), parse s = .bad → parse (s ++ t) = .bad

/-- The messages taken, the bytes kept, and whether the stream was given up. -/
structure Reader (α : Type u) (β : Type v) where
  messages : List β
  rest : List α
  failed : Bool
deriving DecidableEq

def Reader.start : Reader α β :=
  ⟨[], [], false⟩

def Reader.arrive (r : Reader α β) (chunk : List α) : Reader α β :=
  if r.failed then r else { r with rest := r.rest ++ chunk }

/-- One look at the buffer; a stream that is given up keeps nothing. -/
def Reader.take (parse : List α → Verdict β) (r : Reader α β) : Reader α β :=
  if r.failed then r
  else
    match parse r.rest with
    | .more => r
    | .bad => { r with rest := [], failed := true }
    | .done n m => { r with messages := r.messages ++ [m], rest := r.rest.drop n }

/-- A read brings bytes, and the reader may look at its buffer at any time. -/
inductive Event (α : Type u) where
  | read (chunk : List α)
  | look

def Reader.step (parse : List α → Verdict β) (r : Reader α β) : Event α → Reader α β
  | .read chunk => r.arrive chunk
  | .look => r.take parse

def Reader.run (parse : List α → Verdict β) (events : List (Event α)) : Reader α β :=
  events.foldl (Reader.step parse) .start

def Event.bytes : Event α → List α
  | .read chunk => chunk
  | .look => []

def received (events : List (Event α)) : List α :=
  events.flatMap Event.bytes

def Reader.after (r : Reader α β) (front : List β) : Reader α β :=
  { r with messages := front ++ r.messages }

def drainLoop (parse : List α → Verdict β) : Nat → List α → Reader α β
  | 0, s => ⟨[], s, false⟩
  | fuel + 1, s =>
      match parse s with
      | .more => ⟨[], s, false⟩
      | .bad => ⟨[], [], true⟩
      | .done n m => (drainLoop parse fuel (s.drop n)).after [m]

/-- Everything the bytes hold; each message takes at least one byte. -/
def drain (parse : List α → Verdict β) (s : List α) : Reader α β :=
  drainLoop parse s.length s

/-- What a reader will have taken when it has looked often enough. -/
def Reader.settled (parse : List α → Verdict β) (r : Reader α β) : Reader α β :=
  if r.failed then r else (drain parse r.rest).after r.messages

variable {parse : List α → Verdict β}

theorem Reader.after_after (r : Reader α β) (front middle : List β) :
    (r.after middle).after front = r.after (front ++ middle) := by
  simp only [Reader.after, List.append_assoc]

theorem Reader.arrive_after (r : Reader α β) (front : List β) (t : List α) :
    (r.after front).arrive t = (r.arrive t).after front := by
  by_cases failed : r.failed = true
  · rw [Reader.arrive, Reader.arrive, if_pos failed, if_pos (by exact failed)]
  · rw [Reader.arrive, Reader.arrive, if_neg failed, if_neg (by exact failed)]
    rfl

theorem Reader.settled_after (r : Reader α β) (front : List β) :
    (r.after front).settled parse = (r.settled parse).after front := by
  simp only [Reader.settled]
  by_cases failed : r.failed = true
  · rw [if_pos failed, if_pos (by exact failed)]
  · rw [if_neg failed, if_neg (by exact failed), Reader.after_after]
    rfl

section stable
variable (stable : Stable parse)
include stable

theorem Stable.loop_nil (fuel : Nat) : drainLoop parse fuel [] = ⟨[], [], false⟩ := by
  cases fuel with
  | zero => rfl
  | succ fuel => rw [drainLoop, stable.empty]

theorem Stable.loop_fuel {n m : Nat} {s : List α} (left : s.length ≤ n) (right : s.length ≤ m) :
    drainLoop parse n s = drainLoop parse m s := by
  induction n generalizing m s with
  | zero =>
      rw [List.length_eq_zero_iff.mp (Nat.le_zero.mp left), stable.loop_nil, stable.loop_nil]
  | succ n ih =>
      cases m with
      | zero =>
          rw [List.length_eq_zero_iff.mp (Nat.le_zero.mp right), stable.loop_nil,
            stable.loop_nil]
      | succ m =>
          rw [drainLoop, drainLoop]
          cases found : parse s with
          | more | bad => rfl
          | done k message =>
              have used := stable.used found
              have shorter : (s.drop k).length ≤ n ∧ (s.drop k).length ≤ m := by
                rw [List.length_drop]
                omega
              simp only
              rw [ih shorter.1 shorter.2]

omit stable in
theorem drain_more {s : List α} (found : parse s = .more) : drain parse s = ⟨[], s, false⟩ := by
  rw [drain]
  cases s with
  | nil => rfl
  | cons a s => rw [List.length_cons, drainLoop, found]

theorem Stable.drain_bad {s : List α} (found : parse s = .bad) :
    drain parse s = ⟨[], [], true⟩ := by
  rw [drain]
  cases s with
  | nil =>
      rw [stable.empty] at found
      cases found
  | cons a s => rw [List.length_cons, drainLoop, found]

theorem Stable.drain_done {s : List α} {n : Nat} {m : β} (found : parse s = .done n m) :
    drain parse s = (drain parse (s.drop n)).after [m] := by
  have used := stable.used found
  obtain ⟨k, length⟩ : ∃ k, s.length = k + 1 := ⟨s.length - 1, by omega⟩
  have enough : (s.drop n).length ≤ k := by
    rw [List.length_drop]
    omega
  calc drain parse s
      = (drainLoop parse k (s.drop n)).after [m] := by rw [drain, length, drainLoop, found]
    _ = (drain parse (s.drop n)).after [m] := by
        rw [drain, stable.loop_fuel enough (Nat.le_refl _)]

theorem Stable.drain_append (s t : List α) :
    drain parse (s ++ t) = ((drain parse s).arrive t).settled parse := by
  induction length : s.length using Nat.strongRecOn generalizing s with
  | ind k ih =>
      cases found : parse s with
      | more =>
          rw [drain_more found]
          rfl
      | bad =>
          rw [stable.drain_bad found, stable.drain_bad (stable.bad t found)]
          rfl
      | done n m =>
          have used := stable.used found
          have shorter : (s.drop n).length < k := by
            rw [List.length_drop]
            omega
          rw [stable.drain_done found, stable.drain_done (stable.done t found),
            List.drop_append_of_le_length used.2, ih _ shorter (s.drop n) rfl,
            Reader.arrive_after, Reader.settled_after]

theorem Stable.settled_take (r : Reader α β) : (r.take parse).settled parse = r.settled parse := by
  rw [Reader.take]
  split
  · rfl
  · rename_i going
    cases found : parse r.rest with
    | more => rfl
    | bad =>
        rw [Reader.settled, Reader.settled, if_pos rfl, if_neg going, stable.drain_bad found]
        simp only [Reader.after, List.append_nil]
    | done n m =>
        rw [Reader.settled, Reader.settled, if_neg going, if_neg going, stable.drain_done found,
          Reader.after_after]

theorem Stable.settled_arrive (r : Reader α β) (t : List α) :
    (r.arrive t).settled parse = ((r.settled parse).arrive t).settled parse := by
  by_cases failed : r.failed = true
  · rw [Reader.settled.eq_def parse r, if_pos failed]
  · rw [Reader.settled.eq_def parse r, if_neg failed, Reader.arrive_after, Reader.settled_after,
      ← stable.drain_append, Reader.arrive, if_neg failed, Reader.settled, if_neg failed]

theorem Stable.run_follows {r : Reader α β} {s : List α} (follows : r.settled parse = drain parse s)
    (events : List (Event α)) :
    (events.foldl (Reader.step parse) r).settled parse = drain parse (s ++ received events) := by
  induction events generalizing r s with
  | nil => rw [received, List.flatMap_nil, List.append_nil, List.foldl_nil, follows]
  | cons event events ih =>
      rw [List.foldl_cons, received, List.flatMap_cons, ← List.append_assoc]
      refine ih ?_
      cases event with
      | look => rw [Reader.step, stable.settled_take, follows, Event.bytes, List.append_nil]
      | read chunk =>
          rw [Reader.step, stable.settled_arrive, follows, ← stable.drain_append, Event.bytes]

theorem Stable.run_settled (events : List (Event α)) :
    (Reader.run parse events).settled parse = drain parse (received events) :=
  @Stable.run_follows _ _ _ stable .start [] rfl events

theorem Stable.run_prefix (events : List (Event α)) :
    (Reader.run parse events).messages <+: (drain parse (received events)).messages := by
  rw [← stable.run_settled events, Reader.settled]
  split
  · exact List.prefix_rfl
  · exact List.prefix_append _ _

omit stable in
theorem settled_quiet {r : Reader α β} (quiet : r.take parse = r) :
    r.settled parse = r := by
  rw [Reader.settled]
  split
  · rfl
  · rename_i going
    rw [Reader.take, if_neg going] at quiet
    cases found : parse r.rest with
    | more =>
        rw [drain_more found, Reader.after, List.append_nil]
        exact congrArg (Reader.mk r.messages r.rest) (Bool.eq_false_iff.mpr going).symm
    | bad =>
        rw [found] at quiet
        exact absurd (congrArg Reader.failed quiet).symm going
    | done n m =>
        rw [found] at quiet
        have longer := congrArg (fun r => r.messages.length) quiet
        simp at longer

theorem Stable.run_quiet {events : List (Event α)}
    (quiet : (Reader.run parse events).take parse = Reader.run parse events) :
    Reader.run parse events = drain parse (received events) := by
  rw [← stable.run_settled events, settled_quiet quiet]

omit stable in
theorem drainLoop_rest (fuel : Nat) (s : List α) :
    (drainLoop parse fuel s).rest.length ≤ s.length := by
  induction fuel generalizing s with
  | zero => exact Nat.le_refl _
  | succ fuel ih =>
      rw [drainLoop]
      split
      · exact Nat.le_refl _
      · exact Nat.zero_le _
      · next n m _ =>
          refine Nat.le_trans (ih (s.drop n)) ?_
          rw [List.length_drop]
          exact Nat.sub_le _ _

theorem Stable.drain_written {γ : Type*} {write : γ → List α} {read : γ → β}
    (exact : ∀ g t, parse (write g ++ t) = .done (write g).length (read g)) {s t : List α}
    {written : List γ} (stream : s ++ t = written.flatMap write) :
    ∃ k rest, drain parse s = ⟨(written.take k).map read, rest, false⟩ ∧
      rest ++ t = (written.drop k).flatMap write ∧ parse rest = .more := by
  induction written generalizing s with
  | nil =>
      obtain ⟨rfl, rfl⟩ := List.append_eq_nil_iff.mp stream
      exact ⟨0, [], drain_more stable.empty, rfl, stable.empty⟩
  | cons g written ih =>
      rw [List.flatMap_cons] at stream
      by_cases whole : (write g).length ≤ s.length
      · obtain ⟨rest, rfl⟩ : ∃ rest, s = write g ++ rest := by
          obtain ⟨rest, joined⟩ := List.prefix_of_prefix_length_le
            (stream ▸ List.prefix_append (write g) _) (List.prefix_append s t) whole
          exact ⟨rest, joined.symm⟩
        rw [List.append_assoc, List.append_cancel_left_eq] at stream
        obtain ⟨k, left, drained, later, more⟩ := ih stream
        refine ⟨k + 1, left, ?_, later, more⟩
        rw [stable.drain_done (exact g rest), List.drop_left, drained]
        rfl
      · have more : parse s = .more := by
          have all := exact g (written.flatMap write)
          rw [← stream] at all
          cases found : parse s with
          | more => rfl
          | bad =>
              rw [stable.bad t found] at all
              cases all
          | done n m =>
              have used := stable.used found
              rw [stable.done t found] at all
              cases all
              omega
        exact ⟨0, s, drain_more more, stream, more⟩

end stable

/-! ### One message in a bounded buffer -/

section OneMessage
universe w
variable {γ : Type w} (capacity : Nat) (effect : List α → List α → Option γ)

/--
A reader that looks at its buffer after every read and stops at the first effect. The
effect may depend on the buffer and on what has not been read. A read of nothing, which
is all that a full buffer leaves room for, ends it.
-/
def readOne : List α → List (List α) → Option γ
  | _, [] => none
  | buf, chunk :: rest =>
      let room := capacity - buf.length
      if chunk.take room = [] then none
      else
        match effect (buf ++ chunk.take room) (chunk.drop room ++ rest.flatten) with
        | some e => some e
        | none =>
            if chunk.drop room = [] then readOne (buf ++ chunk.take room) rest else none

/-- On this stream an effect stands when more of it is in the buffer. -/
def Settled (stream : List α) : Prop :=
  ∀ s u v e, s ++ (u ++ v) = stream → (s ++ u).length ≤ capacity →
    effect s (u ++ v) = some e → effect (s ++ u) v = some e

variable {capacity effect}

theorem readOne_eq {buf : List α} {chunks : List (List α)} (short : buf.length ≤ capacity)
    (filled : ∀ chunk ∈ chunks, chunk ≠ [])
    (settled : Settled capacity effect (buf ++ chunks.flatten))
    (undecided : effect buf chunks.flatten = none) :
    readOne capacity effect buf chunks =
      effect ((buf ++ chunks.flatten).take capacity) ((buf ++ chunks.flatten).drop capacity) := by
  induction chunks generalizing buf with
  | nil =>
      rw [List.flatten_nil, List.append_nil] at *
      rw [List.take_of_length_le short, List.drop_eq_nil_of_le short, undecided]
      rfl
  | cons chunk rest ih =>
      have cut : chunk.take (capacity - buf.length) ++ chunk.drop (capacity - buf.length) = chunk :=
        List.take_append_drop _ _
      have whole : buf ++ (chunk :: rest).flatten =
          (buf ++ chunk.take (capacity - buf.length)) ++
            (chunk.drop (capacity - buf.length) ++ rest.flatten) := by
        rw [List.append_assoc, ← List.append_assoc (chunk.take _), cut, List.flatten_cons]
      have fits : (buf ++ chunk.take (capacity - buf.length)).length ≤ capacity := by
        rw [List.length_append, List.length_take]
        omega
      unfold readOne
      dsimp only
      split
      case isTrue nothing =>
        have full : buf.length = capacity := by
          obtain none_left | empty := List.take_eq_nil_iff.mp nothing
          · omega
          · exact absurd empty (filled chunk List.mem_cons_self)
        rw [List.take_left' full, List.drop_left' full, undecided]
      case isFalse =>
        split
        case h_1 e found =>
          have later := settled _
            ((chunk.drop (capacity - buf.length) ++ rest.flatten).take
              (capacity - (buf ++ chunk.take (capacity - buf.length)).length))
            ((chunk.drop (capacity - buf.length) ++ rest.flatten).drop
              (capacity - (buf ++ chunk.take (capacity - buf.length)).length)) e
            (by rw [List.take_append_drop, whole])
            (by rw [List.length_append, List.length_take]; omega)
            (by rw [List.take_append_drop, found])
          rw [whole, List.take_append, List.drop_append, List.take_of_length_le fits,
            List.drop_eq_nil_of_le fits, List.nil_append, later]
        case h_2 nothing =>
          split
          case isTrue none_left =>
            have all : chunk.take (capacity - buf.length) = chunk := by
              rw [none_left, List.append_nil] at cut
              exact cut
            rw [all] at fits nothing ⊢
            rw [none_left, List.nil_append] at nothing
            rw [List.flatten_cons, ← List.append_assoc] at settled ⊢
            exact ih fits (fun c member => filled c (List.mem_cons_of_mem _ member)) settled nothing
          case isFalse left =>
            have full : (buf ++ chunk.take (capacity - buf.length)).length = capacity := by
              have longer : capacity - buf.length < chunk.length :=
                Nat.lt_of_not_le fun short => left (List.drop_eq_nil_of_le short)
              rw [List.length_append, List.length_take]
              omega
            rw [whole, List.take_left' full, List.drop_left' full, nothing]

end OneMessage

end Framing
