import LibreEcho.Lib.Runs
import Mathlib

/-!
What the steps of a run give out.

A step gives out at most one thing. Two things given out are related when each is related to the
states that can follow it; a chain of them follows a value that only those steps change.
-/
namespace Runs
universe u v w x
variable {σ : Type u} {ι : Type v} {β : Type w} {γ : Type x} (step : σ → ι → σ)
  (emit : σ → ι → Option β)

def emitted : σ → List ι → List β
  | _, [] => []
  | s, i :: rest => (emit s i).toList ++ emitted (step s i) rest

theorem emitted_cons (s : σ) (i : ι) (rest : List ι) :
    emitted step emit s (i :: rest) = (emit s i).toList ++ emitted step emit (step s i) rest := rfl

section Rules
variable {step emit} (Inv : σ → Prop) {ok : σ → ι → Prop} {s : σ} {inputs : List ι}

theorem emitted_all {P : β → Prop} (kept : ∀ s i, Inv s → ok s i → Inv (step s i))
    (holds : ∀ s i b, Inv s → ok s i → emit s i = some b → P b) (start : Inv s)
    (admitted : Admits step ok s inputs) : ∀ b ∈ emitted step emit s inputs, P b := by
  induction inputs generalizing s with
  | nil => exact nofun
  | cons i rest ih =>
      obtain ⟨now, admitted⟩ := admitted
      intro b given
      obtain given | given := List.mem_append.mp given
      · exact holds s i b start now (Option.mem_toList.mp given)
      · exact ih (kept s i start now) admitted b given

theorem emitted_pairwise (Past : σ → β → Prop) {R : β → β → Prop}
    (kept : ∀ s i, Inv s → ok s i → Inv (step s i))
    (ages : ∀ s i b, Inv s → ok s i → Past s b → Past (step s i) b)
    (fresh : ∀ s i b, Inv s → ok s i → emit s i = some b → Past (step s i) b)
    (apart : ∀ s i b b', Inv s → ok s i → Past s b → emit s i = some b' → R b b') (start : Inv s)
    (admitted : Admits step ok s inputs) :
    (emitted step emit s inputs).Pairwise R ∧
      ∀ b, Past s b → ∀ b' ∈ emitted step emit s inputs, R b b' := by
  induction inputs generalizing s with
  | nil => exact ⟨.nil, nofun⟩
  | cons i rest ih =>
      obtain ⟨now, admitted⟩ := admitted
      obtain ⟨pairs, later⟩ := ih (kept s i start now) admitted
      refine ⟨List.pairwise_append.mpr ⟨?_, pairs, fun b given b' => later b ?_ b'⟩, ?_⟩
      · cases emit s i with
        | none => exact .nil
        | some b => exact List.pairwise_singleton R b
      · exact fresh s i b start now (Option.mem_toList.mp given)
      · intro b past b' given
        obtain given | given := List.mem_append.mp given
        · exact apart s i b b' start now past (Option.mem_toList.mp given)
        · exact later b (ages s i b start now past) b' given

theorem emitted_chain {value : σ → γ} {source target : β → γ}
    (moves : ∀ s i b, emit s i = some b → source b = value s ∧ target b = value (step s i))
    (stays : ∀ s i, emit s i = none → value (step s i) = value s) (s : σ) (inputs : List ι) :
    (emitted step emit s inputs).IsChain (fun b b' => source b' = target b) ∧
      ∀ b ∈ (emitted step emit s inputs).head?, source b = value s := by
  induction inputs generalizing s with
  | nil => exact ⟨.nil, nofun⟩
  | cons i rest ih =>
      obtain ⟨chain, first⟩ := ih (step s i)
      rw [emitted_cons]
      cases given : emit s i with
      | none =>
          rw [stays s i given] at first
          exact ⟨chain, first⟩
      | some b =>
          obtain ⟨source, target⟩ := moves s i b given
          refine ⟨List.isChain_cons.mpr ⟨fun b' next => ?_, chain⟩, fun b' same => ?_⟩
          · rw [target]
            exact first b' next
          · obtain rfl := Option.some.inj same
            exact source

end Rules

end Runs
