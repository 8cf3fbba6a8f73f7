import Mathlib.Data.List.Basic

/-! # Partial computations in step

    Two computations that may fail go in step when both fail or both answer, and then
    with related answers (`Option.Rel`). Computations put together from parts that go
    in step go in step. -/

namespace InStep

variable {α β γ δ ε : Type} {R : α → β → Prop} {T : γ → δ → Prop}

theorem bind {x : Option α} {y : Option β} {f : α → Option γ} {g : β → Option δ}
    (h : Option.Rel R x y) (hfg : ∀ a b, R a b → Option.Rel T (f a) (g b)) :
    Option.Rel T (x.bind f) (y.bind g) := by
  cases h with
  | some hab => exact hfg _ _ hab
  | none     => exact .none

/-- A choice that both make alike. -/
theorem ite {c c' : Prop} [Decidable c] [Decidable c'] (hc : c ↔ c') {x x' : Option α}
    {y y' : Option β} (hthen : c → Option.Rel R x y) (helse : ¬ c → Option.Rel R x' y') :
    Option.Rel R (if c then x else x') (if c' then y else y') := by
  by_cases h : c
  · rw [if_pos h, if_pos (hc.mp h)]
    exact hthen h
  · rw [if_neg h, if_neg (fun h' => h (hc.mpr h'))]
    exact helse h

/-- A fold over related states, with an invariant of the items to come. -/
theorem foldl {f : α → ε → α} {g : β → ε → β} (P : ε → Prop)
    (hstep : ∀ a b e, R a b → P e → R (f a e) (g b e)) (es : List ε) :
    ∀ {a : α} {b : β}, R a b → (∀ e ∈ es, P e) → R (es.foldl f a) (es.foldl g b) := by
  induction es with
  | nil => exact fun h _ => h
  | cons e es ih =>
    intro a b h hes
    have hfirst := hstep a b e h (hes e List.mem_cons_self)
    exact ih hfirst (fun e' he' => hes e' (List.mem_cons_of_mem e he'))

/-- Readings that agree on related states agree on the two results. -/
theorem map_eq_map {f : α → γ} {g : β → γ} {x : Option α} {y : Option β}
    (h : Option.Rel R x y) (hfg : ∀ a b, R a b → f a = g b) : x.map f = y.map g := by
  cases h with
  | some hab => exact congrArg some (hfg _ _ hab)
  | none     => rfl

/-- Where the relation is a reading of the one state as the other, the two results
    are one result and its reading. -/
theorem map_eq {f : α → β} {x : Option α} {y : Option β}
    (h : Option.Rel R x y) (hf : ∀ a b, R a b → f a = b) : x.map f = y :=
  (map_eq_map (g := id) h hf).trans (congrFun Option.map_id y)

end InStep
