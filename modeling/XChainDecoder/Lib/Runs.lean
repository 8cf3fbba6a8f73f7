import Mathlib.Data.List.Basic

/-! # Runs of a step function

    A machine is a function that answers the next state, or nothing where the action
    is not enabled. `run` takes a list of actions; `Along` says that every step of a
    run was taken in a state where some condition held. What every such step
    preserves holds at the end of the run (`run_invariant`). -/

namespace Runs

variable {S A : Type} {step : A → S → Option S}

/-- Take the actions one after the other. -/
def run (step : A → S → Option S) : List A → S → Option S
  | [],      s => some s
  | a :: as, s => (step a s).bind (run step as)

/-- Every step of the run is taken where `good` holds. -/
def Along (step : A → S → Option S) (good : A → S → Prop) : List A → S → Prop
  | [],      _ => True
  | a :: as, s => good a s ∧ ∀ s', step a s = some s' → Along step good as s'

@[simp] theorem run_nil (s : S) : run step [] s = some s := rfl

@[simp] theorem run_cons (a : A) (as : List A) (s : S) :
    run step (a :: as) s = (step a s).bind (run step as) := rfl

theorem run_append (as bs : List A) (s : S) :
    run step (as ++ bs) s = (run step as s).bind (run step bs) := by
  induction as generalizing s with
  | nil => rfl
  | cons a as ih =>
    simp only [List.cons_append, run_cons]
    cases step a s with
    | none => rfl
    | some s' => exact ih s'

/-- What every good step preserves, a good run preserves. -/
theorem run_invariant {P : S → Prop} {good : A → S → Prop}
    (hstep : ∀ a s s', P s → good a s → step a s = some s' → P s') {as : List A} {s s' : S}
    (hs : P s) (hgood : Along step good as s) (h : run step as s = some s') : P s' := by
  induction as generalizing s with
  | nil =>
    simp only [run_nil, Option.some.injEq] at h
    rwa [← h]
  | cons a as ih =>
    simp only [run_cons, Option.bind_eq_some_iff] at h
    rcases h with ⟨s₁, hs₁, h⟩
    exact ih (hstep a s s₁ hs hgood.1 hs₁) (hgood.2 s₁ hs₁) h

instance Along.decidable {good : A → S → Prop} [∀ a s, Decidable (good a s)] :
    ∀ (as : List A) (s : S), Decidable (Along step good as s)
  | [],      _ => isTrue trivial
  | a :: as, s =>
    match hstep : step a s with
    | none    => decidable_of_iff (good a s) (by simp [Along, hstep])
    | some s' =>
      have : Decidable (Along step good as s') := Along.decidable as s'
      decidable_of_iff (good a s ∧ Along step good as s') (by simp [Along, hstep])

/-- A good run is good up to each of its states. -/
theorem Along.of_append {good : A → S → Prop} {as bs : List A} {s : S}
    (h : Along step good (as ++ bs) s) : Along step good as s := by
  induction as generalizing s with
  | nil => trivial
  | cons a as ih => exact ⟨h.1, fun s' hs' => ih (h.2 s' hs')⟩

end Runs
