import Mathlib.Data.List.Sort

/-! # Medians of a sliding window

    The median of a list is the entry halfway up the sorted list, the upper one
    where there are two. It is compared with a bound by counting: a bound lies
    at or below the median exactly if at most half of the entries are smaller.
    So a window keeps its lower bounds when it drops an entry and takes in one
    that is no smaller. -/

namespace Median

variable {α : Type*} [LinearOrder α]

/-! ## Section 1: Entries of a sorted list -/

/-- Nothing in a list of entries at or above `x` is smaller than `x`. -/
theorem countP_lt_eq_zero {l : List α} {x : α} (h : ∀ y ∈ l, x ≤ y) :
    l.countP (fun y => y < x) = 0 := by
  rw [List.countP_eq_zero]
  intro y hy
  simpa using h y hy

/-- A bound lies below the entry at `k` iff at most `k` entries are smaller. -/
theorem le_getElem_iff {s : List α} (hs : s.Pairwise (· ≤ ·)) {k : Nat} (hk : k < s.length)
    (x : α) : x ≤ s[k] ↔ s.countP (fun y => y < x) ≤ k := by
  induction s generalizing k with
  | nil => simp at hk
  | cons a s ih =>
    rcases List.pairwise_cons.mp hs with ⟨ha, hs⟩
    by_cases hax : a < x
    · -- `a` is one of the smaller entries, the others are in the tail
      cases k with
      | zero =>
        have hnot : ¬ x ≤ a := not_le.mpr hax
        simp [hax, hnot]
      | succ k =>
        have hk : k < s.length := by simpa using hk
        have htail := ih hs hk
        simp [hax, htail]
    · -- everything is at or above `a`, hence at or above `x`
      have hxa : x ≤ a := not_lt.mp hax
      have hall : ∀ y ∈ a :: s, x ≤ y := by
        intro y hy
        rcases List.mem_cons.mp hy with rfl | hy
        · exact hxa
        · exact hxa.trans (ha y hy)
      have hentry : x ≤ (a :: s)[k] := hall _ (List.getElem_mem hk)
      rw [countP_lt_eq_zero hall]
      simp [hentry]

/-! ## Section 2: The median -/

/-- The entry halfway up the sorted list. -/
def median (l : List α) : Option α := (l.insertionSort (· ≤ ·))[l.length / 2]?

theorem half_lt {l : List α} (h : l ≠ []) : l.length / 2 < (l.insertionSort (· ≤ ·)).length := by
  have hpos : 0 < l.length := List.length_pos_of_ne_nil h
  rw [List.length_insertionSort]
  omega

@[simp] theorem median_nil : median ([] : List α) = none := by
  simp [median]

theorem exists_median {l : List α} (h : l ≠ []) : ∃ m, median l = some m := by
  rw [median, List.getElem?_eq_getElem (half_lt h)]
  exact ⟨_, rfl⟩

theorem ne_nil_of_median {l : List α} {m : α} (h : median l = some m) : l ≠ [] := by
  intro hnil
  simp [hnil] at h

/-- The median is one of the entries. -/
theorem median_mem {l : List α} {m : α} (h : median l = some m) : m ∈ l := by
  have hmem := List.mem_of_getElem? h
  rwa [List.mem_insertionSort] at hmem

/-- A bound lies below the median iff at most half of the entries are smaller. -/
theorem le_median_iff {l : List α} {m : α} (h : median l = some m) (x : α) :
    x ≤ m ↔ l.countP (fun y => y < x) ≤ l.length / 2 := by
  have hhalf := half_lt (ne_nil_of_median h)
  have hm : (l.insertionSort (· ≤ ·))[l.length / 2] = m := by
    rw [median, List.getElem?_eq_getElem hhalf, Option.some.injEq] at h
    exact h
  rw [← hm, le_getElem_iff (List.pairwise_insertionSort _ l) hhalf x,
    (List.perm_insertionSort _ l).countP_eq]

/-! ## Section 3: Windows -/

/-- A window with no more entries below a bound, and no fewer entries, keeps the
    bound. -/
theorem le_median_of_countP_le {l l' : List α} {m m' x : α} (h : median l = some m)
    (h' : median l' = some m') (hx : x ≤ m) (hlen : l.length ≤ l'.length)
    (hcount : l'.countP (fun y => y < x) ≤ l.countP (fun y => y < x)) : x ≤ m' := by
  have hle := (le_median_iff h x).mp hx
  apply (le_median_iff h' x).mpr
  omega

/-- A window slides: it drops its oldest entries and takes in `y`. A lower bound
    of the median and of `y` stays a lower bound of the median. -/
theorem le_median_of_slide {l l' kept : List α} {m m' x y : α} (h : median l = some m)
    (h' : median l' = some m') (hl' : l' = y :: kept) (hkept : kept.Sublist l)
    (hlen : l.length ≤ l'.length) (hx : x ≤ m) (hxy : x ≤ y) : x ≤ m' := by
  apply le_median_of_countP_le h h' hx hlen
  have hy : ¬ y < x := not_lt.mpr hxy
  have htail : kept.countP (fun z => z < x) ≤ l.countP (fun z => z < x) := hkept.countP_le
  simpa [hl', hy] using htail

end Median
