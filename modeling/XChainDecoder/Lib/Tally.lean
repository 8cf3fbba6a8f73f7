import Mathlib.Data.List.Induction
import Mathlib.Data.List.Perm.Basic
import Mathlib.Logic.Function.Basic

/-! # Counting by key

    Counts in a map that is updated along a list, and the largest of them. Neither
    depends on the order of the list, and both only grow with it. -/

namespace Tally

variable {κ : Type} [DecidableEq κ] {keys more : List κ}

/-- Count one more of a key. -/
def bump (counts : κ → ℕ) (key : κ) : κ → ℕ := Function.update counts key (counts key + 1)

def tally (keys : List κ) : κ → ℕ := keys.foldl bump (fun _ => 0)

@[simp] theorem tally_concat (keys : List κ) (key : κ) :
    tally (keys ++ [key]) = bump (tally keys) key := by
  unfold tally
  rw [List.foldl_append]
  rfl

theorem tally_eq_count (keys : List κ) (key : κ) : tally keys key = keys.count key := by
  induction keys using List.reverseRecOn with
  | nil => rfl
  | append_singleton keys last ih =>
    rw [tally_concat, List.count_append]
    unfold bump
    by_cases hkey : key = last
    · subst hkey
      rw [Function.update_self, ih, List.count_singleton_self]
    · have hzero : [last].count key = 0 := List.count_eq_zero_of_not_mem (by simpa using hkey)
      rw [Function.update_of_ne hkey, ih, hzero, Nat.add_zero]

/-- Count one more of a key, and keep the largest count. -/
def bumpMost (s : (κ → ℕ) × ℕ) (key : κ) : (κ → ℕ) × ℕ :=
  let count := s.1 key + 1
  (Function.update s.1 key count, if count > s.2 then count else s.2)

/-- The largest count along the list. -/
def most (keys : List κ) : ℕ := (keys.foldl bumpMost (fun _ => 0, 0)).2

theorem foldl_bumpMost (keys : List κ) :
    keys.foldl bumpMost (fun _ => 0, 0) = (tally keys, most keys) := by
  induction keys using List.reverseRecOn with
  | nil => rfl
  | append_singleton keys key ih =>
    refine Prod.ext ?_ rfl
    rw [List.foldl_append, ih, tally_concat]
    rfl

theorem most_concat (keys : List κ) (key : κ) : most (keys ++ [key]) =
    if tally keys key + 1 > most keys then tally keys key + 1 else most keys := by
  unfold most
  rw [List.foldl_append, foldl_bumpMost]
  rfl

/-- Some key is counted as often. -/
theorem lt_most_iff {n : ℕ} : n < most keys ↔ ∃ key, n < keys.count key := by
  induction keys using List.reverseRecOn with
  | nil => simp [most]
  | append_singleton keys last ih =>
    have hcount : ∀ key, (keys ++ [last]).count key = keys.count key + if last = key then 1 else 0 := by
      intro key
      rw [List.count_append, List.count_singleton]
      simp
    rw [most_concat, tally_eq_count]
    constructor
    · intro h
      by_cases hlast : n < keys.count last + 1
      · exact ⟨last, by rw [hcount, if_pos rfl]; exact hlast⟩
      · have hmost : n < most keys := by
          split at h
          · exact absurd h hlast
          · exact h
        obtain ⟨key, hkey⟩ := ih.mp hmost
        exact ⟨key, by rw [hcount]; omega⟩
    · rintro ⟨key, hkey⟩
      rw [hcount] at hkey
      by_cases hlast : last = key
      · subst hlast
        rw [if_pos rfl] at hkey
        split <;> omega
      · rw [if_neg hlast, Nat.add_zero] at hkey
        have hmost := ih.mpr ⟨key, hkey⟩
        split <;> omega

theorem tally_perm (h : keys.Perm more) : tally keys = tally more := by
  funext key
  rw [tally_eq_count, tally_eq_count, h.count_eq]

theorem lt_most_of_perm (h : keys.Perm more) {n : ℕ} (hn : n < most keys) : n < most more := by
  obtain ⟨key, hkey⟩ := lt_most_iff.mp hn
  exact lt_most_iff.mpr ⟨key, h.count_eq key ▸ hkey⟩

theorem tally_le_append (keys more : List κ) (key : κ) :
    tally keys key ≤ tally (keys ++ more) key := by
  rw [tally_eq_count, tally_eq_count, List.count_append]
  exact Nat.le_add_right _ _

theorem lt_most_append {n : ℕ} (h : n < most keys) (more : List κ) : n < most (keys ++ more) := by
  obtain ⟨key, hkey⟩ := lt_most_iff.mp h
  refine lt_most_iff.mpr ⟨key, ?_⟩
  rw [List.count_append]
  omega

end Tally
