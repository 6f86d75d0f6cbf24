import Mathlib

/-!
Runs of a deterministic machine over a list of inputs.

A machine is a step function on states and inputs; a run folds it over the
inputs. A side condition may constrain every step by the state it starts from,
so a result about all admitted runs follows from one preservation lemma.
-/
namespace Runs
universe u v
variable {σ : Type u} {ι : Type v} (step : σ → ι → σ)

def run (s : σ) (inputs : List ι) : σ :=
  inputs.foldl step s

/-- Every step of the run meets `ok` in the state it starts from. -/
def Admits (ok : σ → ι → Prop) : σ → List ι → Prop
  | _, [] => True
  | s, i :: rest => ok s i ∧ Admits ok (step s i) rest

instance decidableAdmits (ok : σ → ι → Prop) [∀ s i, Decidable (ok s i)] :
    ∀ (s : σ) (inputs : List ι), Decidable (Admits step ok s inputs)
  | _, [] => isTrue trivial
  | s, i :: rest =>
      have := decidableAdmits ok (step s i) rest
      inferInstanceAs (Decidable (ok s i ∧ Admits step ok (step s i) rest))

@[simp] theorem run_nil (s : σ) : run step s [] = s := rfl

@[simp] theorem run_cons (s : σ) (i : ι) (rest : List ι) :
    run step s (i :: rest) = run step (step s i) rest := rfl

theorem run_append (s : σ) (front back : List ι) :
    run step s (front ++ back) = run step (run step s front) back :=
  List.foldl_append

theorem run_concat (s : σ) (front : List ι) (i : ι) :
    run step s (front ++ [i]) = step (run step s front) i := by
  rw [run_append, run_cons, run_nil]

theorem admits_append (ok : σ → ι → Prop) (s : σ) (front back : List ι) :
    Admits step ok s (front ++ back) ↔
      Admits step ok s front ∧ Admits step ok (run step s front) back := by
  induction front generalizing s with
  | nil => simp [Admits]
  | cons i rest ih => simp [Admits, ih, and_assoc]

theorem admits_concat (ok : σ → ι → Prop) (s : σ) (front : List ι) (i : ι) :
    Admits step ok s (front ++ [i]) ↔
      Admits step ok s front ∧ ok (run step s front) i := by
  simp [admits_append, Admits]

variable {step} in
theorem admits_and {ok ok' : σ → ι → Prop} {s : σ} {inputs : List ι} :
    Admits step (fun s i => ok s i ∧ ok' s i) s inputs ↔
      Admits step ok s inputs ∧ Admits step ok' s inputs := by
  induction inputs generalizing s with
  | nil => simp [Admits]
  | cons i rest ih =>
      simp only [Admits, ih]
      exact and_and_and_comm

variable {step} in
theorem admits_of_forall {P : ι → Prop} {inputs : List ι} (all : ∀ i ∈ inputs, P i) (s : σ) :
    Admits step (fun _ i => P i) s inputs := by
  induction inputs generalizing s with
  | nil => trivial
  | cons i rest ih =>
      exact ⟨all i List.mem_cons_self, ih (fun j member => all j (List.mem_cons_of_mem _ member)) _⟩

variable {step} in
theorem admits_imp {ok ok' : σ → ι → Prop} (weaker : ∀ s i, ok s i → ok' s i) {s : σ}
    {inputs : List ι} (admitted : Admits step ok s inputs) : Admits step ok' s inputs := by
  induction inputs generalizing s with
  | nil => trivial
  | cons i rest ih => exact ⟨weaker s i admitted.1, ih admitted.2⟩

theorem run_invariant {Inv : σ → Prop} {ok : σ → ι → Prop}
    (preserved : ∀ s i, Inv s → ok s i → Inv (step s i)) {s : σ} {inputs : List ι}
    (start : Inv s) (admitted : Admits step ok s inputs) :
    Inv (run step s inputs) := by
  induction inputs generalizing s with
  | nil => exact start
  | cons i rest ih => exact ih (preserved s i start admitted.1) admitted.2

theorem run_invariant_always {Inv : σ → Prop}
    (preserved : ∀ s i, Inv s → Inv (step s i)) {s : σ} (start : Inv s)
    (inputs : List ι) : Inv (run step s inputs) := by
  induction inputs generalizing s with
  | nil => exact start
  | cons i rest ih => exact ih (preserved s i start)

theorem admits_of_invariant {Inv : σ → Prop} {ok : σ → ι → Prop}
    (preserved : ∀ s i, Inv s → Inv (step s i)) (holds : ∀ s i, Inv s → ok s i) {s : σ}
    (start : Inv s) (inputs : List ι) : Admits step ok s inputs := by
  induction inputs generalizing s with
  | nil => trivial
  | cons i rest ih => exact ⟨holds s i start, ih (preserved s i start)⟩

theorem admits_within {Inv : σ → Prop} {ok ok' : σ → ι → Prop}
    (preserved : ∀ s i, Inv s → ok s i → Inv (step s i))
    (holds : ∀ s i, Inv s → ok s i → ok' s i) {s : σ} {inputs : List ι} (start : Inv s)
    (admitted : Admits step ok s inputs) : Admits step ok' s inputs := by
  induction inputs generalizing s with
  | nil => trivial
  | cons i rest ih =>
      exact ⟨holds s i start admitted.1, ih (preserved s i start admitted.1) admitted.2⟩

theorem reached_iff_admits {Inv : σ → Prop} {ok : σ → ι → Prop}
    (kept : ∀ s i, Inv s → (Inv (step s i) ↔ ok s i)) {s : σ} (start : Inv s)
    (inputs : List ι) :
    (∀ front back, inputs = front ++ back → Inv (run step s front)) ↔
      Admits step ok s inputs := by
  constructor
  · intro reached
    induction inputs generalizing s with
    | nil => trivial
    | cons i rest ih =>
        have first : Inv (step s i) := reached [i] rest rfl
        refine ⟨(kept s i start).mp first, ih first fun front back split => ?_⟩
        exact reached (i :: front) back (by rw [split, List.cons_append])
  · intro admitted front back split
    rw [split, admits_append] at admitted
    exact run_invariant step (fun s i inv ok => (kept s i inv).mpr ok) start admitted.1

theorem property_iff_admits {Inv P : σ → Prop} {ok : σ → ι → Prop}
    (kept : ∀ s i, Inv s → ok s i → Inv (step s i)) (holds : ∀ s, Inv s → P s)
    (needs : ∀ s i, Inv s → P (step s i) → ok s i) {s : σ} (start : Inv s) (inputs : List ι) :
    (∀ front back, inputs = front ++ back → P (run step s front)) ↔
      Admits step ok s inputs := by
  constructor
  · intro reached
    induction inputs generalizing s with
    | nil => trivial
    | cons i rest ih =>
        have first : ok s i := needs s i start (reached [i] rest rfl)
        refine ⟨first, ih (kept s i start first) fun front back split => ?_⟩
        exact reached (i :: front) back (by rw [split, List.cons_append])
  · intro admitted front back split
    rw [split, admits_append] at admitted
    exact holds _ (run_invariant step kept start admitted.1)

end Runs
