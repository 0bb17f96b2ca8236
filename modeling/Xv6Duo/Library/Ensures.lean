import Xv6Duo.Library.GuardedRun

/-!
# Partial correctness of fallible computations

A computation ensures a condition when its result satisfies the condition whenever it succeeds.
The rules follow the shape of the program: one for each way to build a computation, and an
invariant rule for a loop over a list.
-/

namespace Except

universe u v

variable {ε : Type u} {α β : Type v}

/-- The result satisfies the condition if the computation succeeds. -/
structure Ensures (computation : Except ε α) (post : α → Prop) : Prop where
  /-- The condition on a result. -/
  of_ok : ∀ {value}, computation = ok value → post value

theorem ensures_ok {value : α} {post : α → Prop} (holds : post value) :
    (ok value : Except ε α).Ensures post where
  of_ok succeeds := by
    cases succeeds
    exact holds

theorem ensures_error {fault : ε} {post : α → Prop} :
    (error fault : Except ε α).Ensures post where
  of_ok succeeds := by cases succeeds

namespace Ensures

variable {first : Except ε α} {post other : α → Prop}

theorem mono (ensures : first.Ensures post) (weaker : ∀ value, post value → other value) :
    first.Ensures other where
  of_ok succeeds := weaker _ (ensures.of_ok succeeds)

/-- The rule of sequences. -/
theorem bind {rest : α → Except ε β} {final : β → Prop} (ensures : first.Ensures post)
    (next : ∀ value, post value → (rest value).Ensures final) :
    (first >>= rest).Ensures final where
  of_ok succeeds := by
    obtain ⟨value, run, after⟩ := bind_eq_ok.mp succeeds
    exact (next value (ensures.of_ok run)).of_ok after

/-- The rule of conditionals. -/
theorem ite {condition : Prop} [Decidable condition] {second : Except ε α}
    (yes : condition → first.Ensures post) (no : ¬condition → second.Ensures post) :
    (if condition then first else second).Ensures post := by
  split
  · next holds => exact yes holds
  · next fails => exact no fails

/-- A loop over a list keeps what each of its passes keeps. -/
theorem foldlM {γ : Type*} {pass : α → γ → Except ε α} {invariant : α → Prop} (items : List γ)
    (step : ∀ value, ∀ item ∈ items, invariant value → (pass value item).Ensures invariant)
    {initial : α} (start : invariant initial) : (items.foldlM pass initial).Ensures invariant := by
  induction items generalizing initial with
  | nil => exact ensures_ok start
  | cons item rest ih =>
      rw [List.foldlM_cons]
      refine bind (step initial item List.mem_cons_self start) fun value holds => ?_
      exact ih (fun value item mem => step value item (List.mem_cons_of_mem _ mem)) holds

/-- A loop over a list whose invariant lists what the passes have done. -/
theorem foldlM_done {γ δ : Type*} {pass : α → γ → Except ε α} {adds : γ → List δ}
    {invariant : List δ → α → Prop} (items : List γ)
    (step : ∀ done value, ∀ item ∈ items, invariant done value →
      (pass value item).Ensures (invariant (done ++ adds item)))
    {done : List δ} {initial : α} (start : invariant done initial) :
    (items.foldlM pass initial).Ensures (invariant (done ++ items.flatMap adds)) := by
  induction items generalizing done initial with
  | nil =>
      rw [List.flatMap_nil, List.append_nil]
      exact ensures_ok start
  | cons item rest ih =>
      rw [List.foldlM_cons, List.flatMap_cons, ← List.append_assoc]
      refine bind (step done initial item List.mem_cons_self start) fun value holds => ?_
      exact ih (fun done value item mem => step done value item (List.mem_cons_of_mem _ mem)) holds

/-! ### Computations with a state -/

section State

variable {σ : Type v} {s : σ}

end State

end Ensures

end Except
