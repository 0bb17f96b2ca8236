import Mathlib.Tactic.TypeStar

/-!
# Runs of a fallible step function

A step function reads a state and a label and either fails or gives the next state. A guard says
which labels the environment may choose in a state. `Reaches` collects the states that guarded,
successful steps reach; an invariant of the initial state that one guarded step preserves holds in
all of them.
-/

namespace GuardedRun

variable {σ α ε : Type*}

/-- States reached by steps that the guard admits and that do not fail. -/
inductive Reaches (guard : σ → α → Prop) (step : σ → α → Except ε σ) (initial : σ) : σ → Prop
  | refl : Reaches guard step initial initial
  | tail {state next : σ} {label : α} :
      Reaches guard step initial state →
      guard state label →
      step state label = .ok next →
      Reaches guard step initial next

/-- A property of the initial state that every guarded step preserves holds in all runs. -/
theorem Reaches.invariant {guard : σ → α → Prop} {step : σ → α → Except ε σ} {initial : σ}
    (holds : σ → Prop) (start : holds initial)
    (preserved : ∀ {state next label},
      holds state → guard state label → step state label = .ok next → holds next)
    {state : σ} (reaches : Reaches guard step initial state) : holds state := by
  induction reaches with
  | refl => exact start
  | tail _ admitted succeeds ih => exact preserved ih admitted succeeds

/-- A run with the labels of its steps. -/
inductive Trace (guard : σ → α → Prop) (step : σ → α → Except ε σ) : σ → List α → σ → Prop
  | nil (state : σ) : Trace guard step state [] state
  | cons {state next last : σ} {label : α} {labels : List α} :
      guard state label →
      step state label = .ok next →
      Trace guard step next labels last →
      Trace guard step state (label :: labels) last

/-- The state after a list of labels, if the guard admits them and no step fails. -/
def replay (guard : σ → α → Prop) [∀ state label, Decidable (guard state label)]
    (step : σ → α → Except ε σ) (state : σ) : List α → Option σ
  | [] => some state
  | label :: labels =>
      if guard state label then
        match step state label with
        | .ok next => replay guard step next labels
        | .error _ => none
      else none

/-- A replay is a run. -/
theorem Reaches.replay {guard : σ → α → Prop} [∀ state label, Decidable (guard state label)]
    {step : σ → α → Except ε σ} {initial state last : σ} {labels : List α}
    (reaches : Reaches guard step initial state)
    (replayed : replay guard step state labels = some last) : Reaches guard step initial last := by
  induction labels generalizing state with
  | nil =>
      cases replayed
      exact reaches
  | cons label labels ih =>
      rw [GuardedRun.replay] at replayed
      split at replayed
      · next admitted =>
          split at replayed
          · next next succeeds => exact ih (reaches.tail admitted succeeds) replayed
          · cases replayed
      · cases replayed

/-- A test that a replay passes holds of a state that is reached. -/
theorem exists_reaches_of_replay (guard : σ → α → Prop)
    [∀ state label, Decidable (guard state label)] (step : σ → α → Except ε σ) (initial : σ)
    (labels : List α) (test : σ → Bool)
    (passes : (replay guard step initial labels).any test = true) :
    ∃ state, Reaches guard step initial state ∧ test state = true := by
  rw [Option.any_eq_true] at passes
  obtain ⟨state, replayed, holds⟩ := passes
  exact ⟨state, Reaches.refl.replay replayed, holds⟩

end GuardedRun

namespace Except

universe u v

variable {ε : Type u} {α β : Type v}

@[simp]
theorem ok_bind (value : α) (rest : α → Except ε β) : (ok value >>= rest) = rest value := rfl

@[simp]
theorem error_bind (fault : ε) (rest : α → Except ε β) :
    ((error fault : Except ε α) >>= rest) = error fault := rfl

@[simp]
theorem pure_eq_ok (value : α) : (pure value : Except ε α) = ok value := rfl

/-- A sequence succeeds exactly when its parts do. -/
theorem bind_eq_ok {first : Except ε α} {rest : α → Except ε β} {result : β} :
    (first >>= rest) = ok result ↔ ∃ value, first = ok value ∧ rest value = ok result := by
  cases first with
  | error fault => simp
  | ok value => simp

theorem ok_ne_error (value : α) (fault : ε) : (ok value : Except ε α) ≠ error fault := by
  intro same
  cases same

theorem error_ne_error {other fault : ε} (differ : other ≠ fault) :
    (error other : Except ε α) ≠ error fault :=
  fun same => differ (error.inj same)

/-- A sequence ends in no error that its parts do not end in. -/
theorem bind_ne_error {first : Except ε α} {rest : α → Except ε β} {fault : ε}
    (first_ne : first ≠ error fault) (rest_ne : ∀ value, first = ok value →
      rest value ≠ error fault) : (first >>= rest) ≠ error fault := by
  cases first with
  | error other => exact fun same => first_ne (congrArg error (error.inj same))
  | ok value => exact rest_ne value rfl

/-- A test that a computation passes holds of its result. -/
theorem exists_of_any {computation : Except ε α} {test : α → Bool}
    (passes : computation.toOption.any test = true) :
    ∃ value, computation = ok value ∧ test value = true := by
  cases computation with
  | error fault => simp [Except.toOption] at passes
  | ok value => exact ⟨value, rfl, by simpa [Except.toOption] using passes⟩

end Except
