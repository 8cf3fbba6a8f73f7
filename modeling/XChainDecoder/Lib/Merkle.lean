import Mathlib.Data.List.Basic

/-! # Merkle roots with duplicated odd nodes

    A level of nodes is hashed pair by pair to the level above; where the number of
    nodes is odd, the last one is paired with itself. The root is what is left when one
    node is left. Neither the number of leaves nor the height enters it.

    **Main theorems.** `eq_of_root_eq`: lists of the same length with the same root are
    the same, unless two of the pairs that were hashed collide. `root_append_getLast`: a
    list of odd length, from three on, has the root of the list with its last leaf
    repeated. -/

namespace Merkle

variable {α : Type} (node : α → α → α)

/-! ## Section 1: Levels -/

/-- The level above. -/
def level : List α → List α
  | []             => []
  | [a]            => [node a a]
  | a :: b :: rest => node a b :: level rest

/-- The pairs that are hashed for it. -/
def pairs : List α → List (α × α)
  | []             => []
  | [a]            => [(a, a)]
  | a :: b :: rest => (a, b) :: pairs rest

/-- Levels until one node is left, at most `n` of them. -/
def reduce : ℕ → List α → List α
  | 0,     nodes => nodes
  | n + 1, nodes => if 1 < nodes.length then reduce n (level node nodes) else nodes

/-- All pairs that are hashed on the way. -/
def hashed : ℕ → List α → List (α × α)
  | 0,     _     => []
  | n + 1, nodes => if 1 < nodes.length then pairs nodes ++ hashed n (level node nodes) else []

/-- The root over a list of leaves; none over no leaves. -/
def root (leaves : List α) : Option α := (reduce node leaves.length leaves).head?

/-- The pairs hashed for a root. -/
def hashedPairs (leaves : List α) : List (α × α) := hashed node leaves.length leaves

/-- No two of the pairs hashed for the roots of two lists collide. -/
def CollisionFree (leaves leaves' : List α) : Prop :=
  ∀ p ∈ hashedPairs node leaves ++ hashedPairs node leaves',
    ∀ q ∈ hashedPairs node leaves ++ hashedPairs node leaves',
      node p.1 p.2 = node q.1 q.2 → p = q

theorem length_level (nodes : List α) : (level node nodes).length = (nodes.length + 1) / 2 := by
  induction nodes using level.induct with
  | case1 => simp [level]
  | case2 a => simp [level]
  | case3 a b rest ih =>
    rw [level, List.length_cons, ih, List.length_cons, List.length_cons]
    omega

/-- A bound that is long enough does not show. -/
theorem reduce_eq {n m : ℕ} {nodes : List α} (hn : nodes.length ≤ n) (hm : nodes.length ≤ m) :
    reduce node n nodes = reduce node m nodes := by
  induction n generalizing m nodes with
  | zero =>
    have hnil : nodes = [] := List.length_eq_zero_iff.mp (Nat.le_zero.mp hn)
    rw [hnil]
    cases m <;> rfl
  | succ n ih =>
    cases m with
    | zero =>
      have hnil : nodes = [] := List.length_eq_zero_iff.mp (Nat.le_zero.mp hm)
      rw [hnil]
      rfl
    | succ m =>
      unfold reduce
      by_cases hmore : 1 < nodes.length
      · rw [if_pos hmore, if_pos hmore]
        have hlevel := length_level node nodes
        exact ih (by omega) (by omega)
      · rw [if_neg hmore, if_neg hmore]

theorem reduce_ne_nil {n : ℕ} {nodes : List α} (h : nodes ≠ []) : reduce node n nodes ≠ [] := by
  induction n generalizing nodes with
  | zero => exact h
  | succ n ih =>
    unfold reduce
    by_cases hmore : 1 < nodes.length
    · rw [if_pos hmore]
      refine ih (fun hnil => ?_)
      have hlevel := length_level node nodes
      rw [hnil, List.length_nil] at hlevel
      omega
    · rw [if_neg hmore]
      exact h

/-- There is a root over any leaves. -/
theorem exists_root {leaves : List α} (h : leaves ≠ []) : ∃ top, root node leaves = some top := by
  obtain ⟨top, rest, hreduce⟩ := List.exists_cons_of_ne_nil (reduce_ne_nil node h)
  exact ⟨top, by unfold root; rw [hreduce]; rfl⟩

/-! ## Section 2: Lists of one length -/

/-- Two levels of one length with one level above are the same, unless their pairs
    collide. -/
theorem eq_of_level_eq {nodes nodes' : List α} (hlength : nodes.length = nodes'.length)
    (hfree : ∀ p ∈ pairs nodes, ∀ q ∈ pairs nodes', node p.1 p.2 = node q.1 q.2 → p = q)
    (h : level node nodes = level node nodes') : nodes = nodes' := by
  induction nodes using level.induct generalizing nodes' with
  | case1 =>
    exact (List.length_eq_zero_iff.mp hlength.symm).symm
  | case2 a =>
    obtain ⟨a', rfl⟩ := List.length_eq_one_iff.mp hlength.symm
    have hpair := hfree (a, a) List.mem_cons_self (a', a') List.mem_cons_self (List.cons.inj h).1
    rw [(Prod.mk.inj hpair).1]
  | case3 a b rest ih =>
    match nodes', hlength with
    | a' :: b' :: rest', hlength =>
      obtain ⟨hhead, htail⟩ := List.cons.inj h
      have hpair := hfree (a, b) List.mem_cons_self (a', b') List.mem_cons_self hhead
      obtain ⟨ha, hb⟩ := Prod.mk.inj hpair
      have hrest := ih (by simpa using hlength)
        (fun p hp q hq => hfree p (List.mem_cons_of_mem _ hp) q (List.mem_cons_of_mem _ hq)) htail
      rw [ha, hb, hrest]

theorem eq_of_reduce_eq {n : ℕ} {nodes nodes' : List α} (hlength : nodes.length = nodes'.length)
    (hfree : ∀ p ∈ hashed node n nodes, ∀ q ∈ hashed node n nodes',
      node p.1 p.2 = node q.1 q.2 → p = q)
    (hn : nodes.length ≤ n) (h : (reduce node n nodes).head? = (reduce node n nodes').head?) :
    nodes = nodes' := by
  -- by induction on the levels: those above are the same, so these are
  induction n generalizing nodes nodes' with
  | zero =>
    have hnil : nodes = [] := List.length_eq_zero_iff.mp (Nat.le_zero.mp hn)
    rw [hnil] at hlength ⊢
    exact (List.length_eq_zero_iff.mp hlength.symm).symm
  | succ n ih =>
    unfold reduce at h
    unfold hashed at hfree
    rw [← hlength] at h hfree
    by_cases hmore : 1 < nodes.length
    · rw [if_pos hmore, if_pos hmore] at h hfree
      have hlevel := length_level node nodes
      have hlevel' := length_level node nodes'
      have habove : level node nodes = level node nodes' := by
        refine ih (by omega) (fun p hp q hq => ?_) (by omega) h
        exact hfree p (List.mem_append_right _ hp) q (List.mem_append_right _ hq)
      refine eq_of_level_eq node hlength (fun p hp q hq => ?_) habove
      exact hfree p (List.mem_append_left _ hp) q (List.mem_append_left _ hq)
    · rw [if_neg hmore, if_neg hmore] at h
      match nodes, nodes', hlength with
      | [], [], _ => rfl
      | [a], [a'], _ => rw [Option.some.inj h]
      | _ :: _ :: _, _, _ => exact absurd (by simp) hmore

/-- Leaves of one length with one root are the same, unless two hashed pairs collide. -/
theorem eq_of_root_eq {leaves leaves' : List α} (hlength : leaves.length = leaves'.length)
    (hfree : CollisionFree node leaves leaves') (h : root node leaves = root node leaves') :
    leaves = leaves' := by
  unfold root at h
  unfold CollisionFree hashedPairs at hfree
  rw [← hlength] at h hfree
  refine eq_of_reduce_eq node hlength (fun p hp q hq => ?_) (Nat.le_refl _) h
  exact hfree p (List.mem_append_left _ hp) q (List.mem_append_right _ hq)

/-! ## Section 3: The last leaf twice -/

theorem level_append_getLast {nodes : List α} (hodd : nodes.length % 2 = 1) (hne : nodes ≠ []) :
    level node (nodes ++ [nodes.getLast hne]) = level node nodes := by
  induction nodes using level.induct with
  | case1 => exact absurd rfl hne
  | case2 a => rfl
  | case3 a b rest ih =>
    have hrest : rest.length % 2 = 1 := by
      rw [List.length_cons, List.length_cons] at hodd
      omega
    have hsome : rest ≠ [] := by
      intro hnil
      rw [hnil] at hrest
      cases hrest
    have hlast : (a :: b :: rest).getLast hne = rest.getLast hsome := by
      rw [List.getLast_cons (List.cons_ne_nil b rest), List.getLast_cons hsome]
    rw [hlast, List.cons_append, List.cons_append, level, ih hrest hsome]
    rfl

/-- The root does not tell whether the last leaf of an odd number is there twice. -/
theorem root_append_getLast {leaves : List α} (hodd : leaves.length % 2 = 1)
    (hmore : 1 < leaves.length) (hne : leaves ≠ []) :
    root node (leaves ++ [leaves.getLast hne]) = root node leaves := by
  unfold root
  have hlength : (leaves ++ [leaves.getLast hne]).length = leaves.length + 1 := by
    rw [List.length_append, List.length_singleton]
  have hlevel := length_level node leaves
  have htwice : reduce node (leaves.length + 1) (leaves ++ [leaves.getLast hne]) =
      reduce node leaves.length (level node leaves) := by
    rw [reduce, if_pos (by omega), level_append_getLast node hodd hne]
  have honce : reduce node (leaves.length + 1) leaves = reduce node leaves.length (level node leaves) := by
    rw [reduce, if_pos hmore]
  rw [hlength, htwice, ← honce, reduce_eq node (Nat.le_succ _) (Nat.le_refl _)]

end Merkle
