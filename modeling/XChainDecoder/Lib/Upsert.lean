import Mathlib.Data.List.Induction
import Mathlib.Data.List.Nodup

/-! # Collecting by key

    An insertion-ordered map from keys to values, as an association list: a value
    is merged into the entry of its key, or opens an entry at the end. Collecting a
    list this way leaves one entry for each key, which holds the merge of the
    elements of that key in their order. -/

namespace Upsert

variable {κ α β : Type} [DecidableEq κ]

/-- Merge into the entry of a key, or open one at the end. -/
def upsert (k : κ) (opening : β) (merge : β → β) : List (κ × β) → List (κ × β)
  | []             => [(k, opening)]
  | (k', b) :: rest =>
      if k' = k then (k', merge b) :: rest else (k', b) :: upsert k opening merge rest

/-- Collect a list by key. -/
def collect (key : α → κ) (start : α → β) (merge : β → α → β) (l : List α) : List (κ × β) :=
  l.foldl (fun entries a => upsert (key a) (start a) (fun b => merge b a) entries) []

/-- What one entry comes to: the first element opens it, the others are merged in. -/
def merged (start : α → β) (merge : β → α → β) : List α → Option β
  | []      => none
  | a :: as => some (as.foldl merge (start a))

theorem merged_concat (start : α → β) (merge : β → α → β) (l : List α) (a : α) :
    merged start merge (l ++ [a]) =
      some ((merged start merge l).elim (start a) (fun b => merge b a)) := by
  cases l with
  | nil => rfl
  | cons b l => simp [merged]

/-- An invariant of the merges holds of what they come to. -/
theorem merged_induction {start : α → β} {merge : β → α → β} {P : List α → β → Prop}
    (hstart : ∀ a, P [a] (start a)) (hmerge : ∀ l a b, P l b → P (l ++ [a]) (merge b a))
    {l : List α} {b : β} (h : merged start merge l = some b) : P l b := by
  induction l using List.reverseRecOn generalizing b with
  | nil => cases h
  | append_singleton l a ih =>
    rw [merged_concat, Option.some.injEq] at h
    cases hl : merged start merge l with
    | none =>
      have hnil : l = [] := by
        cases l with
        | nil => rfl
        | cons c l => simp [merged] at hl
      rw [hl] at h
      rw [← h, hnil]
      exact hstart a
    | some c =>
      rw [hl] at h
      rw [← h]
      exact hmerge l a c (ih hl)

/-! ## Keys -/

theorem keys_upsert (k : κ) (opening : β) (merge : β → β) (entries : List (κ × β)) :
    (upsert k opening merge entries).map Prod.fst =
      if k ∈ entries.map Prod.fst then entries.map Prod.fst else entries.map Prod.fst ++ [k] := by
  induction entries with
  | nil => rfl
  | cons e rest ih =>
    obtain ⟨k', b⟩ := e
    by_cases hk : k' = k
    · simp [upsert, hk]
    · have hk' : k ≠ k' := fun h => hk h.symm
      by_cases hmem : k ∈ rest.map Prod.fst
      · simp only [upsert, hk, if_false, List.map_cons, ih, hmem, if_true, List.mem_cons, or_true]
      · simp only [upsert, hk, if_false, List.map_cons, ih, hmem, List.mem_cons, hk', or_self,
          List.cons_append]

theorem nodup_keys_upsert {k : κ} {opening : β} {merge : β → β} {entries : List (κ × β)}
    (h : (entries.map Prod.fst).Nodup) :
    ((upsert k opening merge entries).map Prod.fst).Nodup := by
  rw [keys_upsert]
  by_cases hk : k ∈ entries.map Prod.fst
  · rw [if_pos hk]
    exact h
  · rw [if_neg hk]
    simpa only [List.concat_eq_append] using List.Nodup.concat hk h

theorem nodup_keys_collect (key : α → κ) (start : α → β) (merge : β → α → β) (l : List α) :
    ((collect key start merge l).map Prod.fst).Nodup := by
  induction l using List.reverseRecOn with
  | nil => exact List.nodup_nil
  | append_singleton l a ih =>
    unfold collect
    rw [List.foldl_append]
    exact nodup_keys_upsert ih

/-! ## Entries -/

theorem lookup_cons_if (k j : κ) (b : β) (rest : List (κ × β)) :
    ((j, b) :: rest).lookup k = if k = j then some b else rest.lookup k := by
  by_cases h : k = j
  · simp [h]
  · have hbeq : (k == j) = false := beq_eq_false_iff_ne.mpr h
    rw [List.lookup_cons, hbeq, if_neg h]

theorem lookup_upsert (k k' : κ) (opening : β) (merge : β → β) (entries : List (κ × β)) :
    (upsert k opening merge entries).lookup k' =
      if k' = k then some ((entries.lookup k).elim opening merge) else entries.lookup k' := by
  induction entries with
  | nil => exact lookup_cons_if k' k opening []
  | cons e rest ih =>
    obtain ⟨j, b⟩ := e
    by_cases hj : j = k
    · simp only [upsert, hj, if_true, lookup_cons_if, Option.elim_some]
      split <;> rfl
    · have hj' : ¬ k = j := fun h => hj h.symm
      simp only [upsert, hj, hj', if_false, lookup_cons_if, ih]
      by_cases hk' : k' = k
      · simp [hk', hj']
      · simp [hk']

/-- The entry of a key holds the merge of the elements of that key. -/
theorem lookup_collect (key : α → κ) (start : α → β) (merge : β → α → β) (l : List α) (k : κ) :
    (collect key start merge l).lookup k = merged start merge (l.filter (fun a => key a = k)) := by
  induction l using List.reverseRecOn with
  | nil => rfl
  | append_singleton l a ih =>
    have hfold : collect key start merge (l ++ [a]) =
        upsert (key a) (start a) (fun b => merge b a) (collect key start merge l) := by
      simp [collect]
    rw [hfold, lookup_upsert, List.filter_append]
    by_cases hk : k = key a
    · rw [if_pos hk, ← hk, ih]
      simp [hk, merged_concat]
    · have hk' : ¬ key a = k := fun h => hk h.symm
      rw [if_neg hk, ih]
      simp [hk']

theorem lookup_of_mem {entries : List (κ × β)} (h : (entries.map Prod.fst).Nodup) {k : κ} {b : β}
    (hmem : (k, b) ∈ entries) : entries.lookup k = some b := by
  induction entries with
  | nil => cases hmem
  | cons e rest ih =>
    obtain ⟨j, c⟩ := e
    have hnodup := List.nodup_cons.mp h
    rcases List.mem_cons.mp hmem with heq | hrest
    · cases heq
      simp
    · have hne : k ≠ j := fun hkj => hnodup.1 (hkj ▸ List.mem_map.mpr ⟨_, hrest, rfl⟩)
      rw [lookup_cons_if, if_neg hne]
      exact ih hnodup.2 hrest

theorem mem_of_lookup {entries : List (κ × β)} {k : κ} {b : β} (h : entries.lookup k = some b) :
    (k, b) ∈ entries := by
  induction entries with
  | nil => cases h
  | cons e rest ih =>
    obtain ⟨j, c⟩ := e
    rw [lookup_cons_if] at h
    by_cases hkj : k = j
    · rw [if_pos hkj, Option.some.injEq] at h
      rw [hkj, h]
      exact List.mem_cons_self
    · rw [if_neg hkj] at h
      exact List.mem_cons_of_mem _ (ih h)

/-- The entries are the keys of the list, each with its merge. -/
theorem mem_collect {key : α → κ} {start : α → β} {merge : β → α → β} {l : List α} {k : κ} {b : β} :
    (k, b) ∈ collect key start merge l ↔
      merged start merge (l.filter (fun a => key a = k)) = some b := by
  rw [← lookup_collect]
  exact ⟨lookup_of_mem (nodup_keys_collect key start merge l), mem_of_lookup⟩

/-- Every element has an entry. -/
theorem exists_mem_collect (key : α → κ) (start : α → β) (merge : β → α → β) {l : List α} {a : α}
    (h : a ∈ l) : ∃ b, (key a, b) ∈ collect key start merge l := by
  have hmem : a ∈ l.filter (fun c => key c = key a) := by simpa using h
  obtain ⟨c, rest, hfilter⟩ := List.exists_cons_of_ne_nil (List.ne_nil_of_mem hmem)
  exact ⟨rest.foldl merge (start c), mem_collect.mpr (by rw [hfilter]; rfl)⟩

/-! ## Keys of one kernel

    The keys themselves do not matter, only which elements share one. -/

/-- Merging goes alike under two keys that agree on which entries `a` belongs to. -/
theorem exists_upsert_congr {κ' : Type} [DecidableEq κ'] {key : α → κ} {key' : α → κ'} {a : α}
    (opening : β) (merge : β → β) {groups : List (α × β)}
    (h : ∀ g ∈ groups, key g.1 = key a ↔ key' g.1 = key' a) :
    ∃ groups' : List (α × β),
      upsert (key a) opening merge (groups.map (fun g => (key g.1, g.2))) =
        groups'.map (fun g => (key g.1, g.2)) ∧
      upsert (key' a) opening merge (groups.map (fun g => (key' g.1, g.2))) =
        groups'.map (fun g => (key' g.1, g.2)) ∧
      ∀ g ∈ groups', g.1 = a ∨ g.1 ∈ groups.map Prod.fst := by
  induction groups with
  | nil => exact ⟨[(a, opening)], rfl, rfl, by simp⟩
  | cons g rest ih =>
    have hiff := h g List.mem_cons_self
    by_cases hk : key g.1 = key a
    · have hk' := hiff.mp hk
      refine ⟨(g.1, merge g.2) :: rest, by simp [upsert, hk], by simp [upsert, hk'], ?_⟩
      intro g' hg'
      rcases List.mem_cons.mp hg' with rfl | hg'
      · exact .inr (by simp)
      · exact .inr (List.mem_map_of_mem (List.mem_cons_of_mem _ hg'))
    · have hk' : ¬ key' g.1 = key' a := fun h' => hk (hiff.mpr h')
      obtain ⟨groups', heq, heq', hmem⟩ := ih (fun g' hg' => h g' (List.mem_cons_of_mem _ hg'))
      refine ⟨g :: groups', by simp [upsert, hk, heq], by simp [upsert, hk', heq'], ?_⟩
      intro g' hg'
      rcases List.mem_cons.mp hg' with rfl | hg'
      · exact .inr (by simp)
      · rcases hmem g' hg' with ha | hrest
        · exact .inl ha
        · exact .inr (List.mem_cons_of_mem _ hrest)

/-- Two keys that tell the same elements apart collect the same values. -/
theorem collect_congr {κ' : Type} [DecidableEq κ'] {key : α → κ} {key' : α → κ'}
    {start : α → β} {merge : β → α → β} {l : List α}
    (h : ∀ a ∈ l, ∀ b ∈ l, key a = key b ↔ key' a = key' b) :
    (collect key start merge l).map Prod.snd = (collect key' start merge l).map Prod.snd := by
  -- The entries of both are those of one list of representatives.
  have hgroups : ∃ groups : List (α × β),
      collect key start merge l = groups.map (fun g => (key g.1, g.2)) ∧
      collect key' start merge l = groups.map (fun g => (key' g.1, g.2)) ∧
      ∀ g ∈ groups, g.1 ∈ l := by
    induction l using List.reverseRecOn with
    | nil => exact ⟨[], rfl, rfl, by simp⟩
    | append_singleton l a ih =>
      obtain ⟨groups, heq, heq', hmem⟩ := ih (fun b hb c hc =>
        h b (List.mem_append_left _ hb) c (List.mem_append_left _ hc))
      obtain ⟨groups', hup, hup', hmem'⟩ := exists_upsert_congr (start a) (fun b => merge b a)
        (fun g hg => h g.1 (List.mem_append_left _ (hmem g hg)) a (by simp))
      refine ⟨groups', ?_, ?_, ?_⟩
      · rw [← hup, ← heq]
        simp [collect]
      · rw [← hup', ← heq']
        simp [collect]
      · intro g hg
        rcases hmem' g hg with ha | hold
        · simp [ha]
        · obtain ⟨g', hg', hfst⟩ := List.mem_map.mp hold
          exact List.mem_append_left _ (hfst ▸ hmem g' hg')
  obtain ⟨groups, heq, heq', -⟩ := hgroups
  rw [heq, heq', List.map_map, List.map_map]
  rfl

end Upsert
