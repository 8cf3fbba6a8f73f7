import Mathlib.Data.List.Nodup
import XChainDecoder.Lib.Process

/-! # Lists that are worked through in slices

    `for (i = 0; i < xs.length; i += size)` over `xs.slice(i, i + size)`: the slices are
    the list cut up, so whatever holds of the part worked through and is kept by one
    more slice holds of the whole list in the end (`wp_eachSlice`).

    And the set that JavaScript makes of a list: each value once, where it came first. -/

namespace Slices

variable {α σ E S ε : Type}

/-! ## Section 1: Slices -/

/-- `xs.slice(i, i + size)`. -/
def slice (xs : List α) (i size : ℕ) : List α := (xs.drop i).take size

theorem take_append_slice (xs : List α) (i size : ℕ) :
    xs.take i ++ slice xs i size = xs.take (i + size) :=
  List.take_add.symm

theorem slice_sublist (xs : List α) (i size : ℕ) : (slice xs i size).Sublist xs :=
  (List.take_sublist size _).trans (List.drop_sublist i xs)

/-! ## Section 2: The loop -/

/-- The round of the loop at index `i`. -/
def round (size : ℕ) (xs : List α) (body : List α → σ → Proc E S ε σ) (c : ℕ × σ) :
    Proc E S ε ((ℕ × σ) ⊕ σ) :=
  if c.1 < xs.length then do
    let a ← body (slice xs c.1 size) c.2
    pure (.inl (c.1 + size, a))
  else pure (.inr c.2)

/-- The loop; its bound is never reached where `size` is positive. -/
def eachSlice (size : ℕ) (xs : List α) (body : List α → σ → Proc E S ε σ) (a : σ) :
    Proc E S ε σ :=
  Proc.iterate (round size xs body) (xs.length + 1) (0, a)

/-- What the work on a slice has to establish: the invariant of the part it extends. -/
def partEnds (I : List α → σ → S → Prop) (Q : Except (Stop ε) σ → S → Prop) (front : List α) :
    Except (Stop ε) σ → S → Prop
  | .ok a,    s => I front a s
  | .error e, s => Q (.error e) s

/-- **Slice rule.** An invariant of the part worked through that every further slice
    keeps holds of the whole list when the loop ends. -/
theorem wp_eachSlice {size : ℕ} (hsize : 0 < size) {xs : List α}
    {body : List α → σ → Proc E S ε σ} {env : E} (I : List α → σ → S → Prop)
    {Q : Except (Stop ε) σ → S → Prop}
    (hpart : ∀ front part back a s, front ++ part ++ back = xs → part ≠ [] →
      part.length ≤ size → I front a s → (body part a).wp env s (partEnds I Q (front ++ part)))
    (hend : ∀ a s, I xs a s → Q (.ok a) s) {a : σ} {s : S} (h : I [] a s) :
    (eachSlice size xs body a).wp env s Q := by
  refine Proc.wp_iterate_of_measure (fun (c : ℕ × σ) (s : S) => I (xs.take c.1) c.2 s)
    (fun c _ => xs.length - c.1) ?_ _ _ _ h (Nat.lt_succ_self _)
  intro c s hc
  obtain ⟨i, a⟩ := c
  unfold round
  dsimp only at hc ⊢
  by_cases hi : i < xs.length
  · rw [if_pos hi]
    -- the front that is done, the slice of this round, and the rest
    have hcut : xs.take i ++ slice xs i size ++ xs.drop (i + size) = xs := by
      rw [take_append_slice, List.take_append_drop]
    have hlength : (slice xs i size).length = min size (xs.length - i) := by
      unfold slice
      rw [List.length_take, List.length_drop]
    have hne : slice xs i size ≠ [] := by
      intro hnil
      rw [hnil, List.length_nil] at hlength
      omega
    refine Proc.wp_seq (hpart _ _ _ a s hcut hne (by omega) hc) ?_ (fun e s' he => he)
    intro a' s' ha'
    refine ⟨?_, by dsimp only; omega⟩
    rw [← take_append_slice]
    exact ha'
  · rw [if_neg hi]
    have hall : xs.take i = xs := List.take_of_length_le (by omega)
    have hdone : I xs a s := by
      rw [← hall]
      exact hc
    exact hend a s hdone

/-- The loop comes to an end wherever the work on each slice does. -/
theorem settles_eachSlice {size : ℕ} (hsize : 0 < size) (xs : List α)
    {body : List α → σ → Proc E S ε σ} (hbody : ∀ part a, Proc.Settles (body part a)) (a : σ) :
    Proc.Settles (eachSlice size xs body a) := by
  intro env s
  refine wp_eachSlice hsize (fun _ _ _ => True) ?_ (fun _ _ _ => trivial) trivial
  intro front part back a s _ _ _ _
  refine Proc.wp_mono (hbody part a env s) ?_
  intro ended s' h
  cases ended with
  | ok a => trivial
  | error e => exact h

/-- It answers wherever the work on each slice does. -/
theorem answers_eachSlice {size : ℕ} (hsize : 0 < size) (xs : List α)
    {body : List α → σ → Proc E S ε σ} {env : E}
    (hbody : ∀ part a, Proc.Answers env (body part a) (fun _ => True)) (a : σ) :
    Proc.Answers env (eachSlice size xs body a) (fun _ => True) := by
  intro s
  have hends : (eachSlice size xs body a).wp env s (fun ended _ => ∃ a', ended = .ok a') := by
    refine wp_eachSlice hsize (fun _ _ _ => True) ?_ (fun a' _ _ => ⟨a', rfl⟩) trivial
    intro front part back a s _ _ _ _
    obtain ⟨a', s', hrun, -⟩ := hbody part a s
    unfold Proc.wp
    rw [hrun]
    trivial
  obtain ⟨a', hok⟩ := hends
  exact ⟨a', (eachSlice size xs body a env s).2, Prod.ext hok rfl, trivial⟩

/-! ## Section 3: Each value once -/

theorem nodup_eraseDups [BEq α] [LawfulBEq α] (xs : List α) : xs.eraseDups.Nodup := by
  induction hn : xs.length using Nat.strongRecOn generalizing xs with
  | ind n ih =>
    cases xs with
    | nil => simp
    | cons x xs =>
      rw [List.eraseDups_cons, List.nodup_cons, List.mem_eraseDups]
      have hshort : (xs.filter (fun y => !y == x)).length < n := by
        have hle := List.length_filter_le (fun y => !y == x) xs
        rw [← hn, List.length_cons]
        omega
      refine ⟨?_, ih _ hshort _ rfl⟩
      intro hmem
      simp at hmem

end Slices
