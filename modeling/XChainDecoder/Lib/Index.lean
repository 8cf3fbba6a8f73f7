import Mathlib.Data.List.Basic
import Mathlib.Data.List.Nodup

/-! # Interning tables

    A lookup table that gives each value a number. Values are compared by a key
    (a database collation compares strings by a weight, not by their bytes), no
    two rows share a number or a key, and rows are only ever added, so a number
    handed out once keeps its meaning. -/

namespace Index

/-- A row of an interning table. -/
structure Row (V : Type) where
  id    : Nat
  value : V
deriving DecidableEq, Repr

end Index

/-- An interning table whose values are compared by `key`. -/
@[ext] structure Index (V K : Type) (key : V → K) where
  rows       : List (Index.Row V)
  ids_nodup  : (rows.map Index.Row.id).Nodup
  keys_nodup : (rows.map (fun r => key r.value)).Nodup

namespace Index

variable {V K : Type} {key : V → K}

instance [DecidableEq V] : DecidableEq (Index V K key) := fun a b =>
  decidable_of_iff (a.rows = b.rows) Index.ext_iff.symm

/-- The table that holds one reserved row. -/
def singleton (key : V → K) (id : Nat) (v : V) : Index V K key where
  rows := [⟨id, v⟩]
  ids_nodup := List.nodup_singleton _
  keys_nodup := List.nodup_singleton _

def empty (key : V → K) : Index V K key where
  rows := []
  ids_nodup := List.nodup_nil
  keys_nodup := List.nodup_nil

/-- `SELECT value WHERE id = ?`. -/
def valueOf (t : Index V K key) (id : Nat) : Option V :=
  (t.rows.find? (fun r => r.id = id)).map Row.value

/-- The number the next row gets, above every number in use and above `floor`. -/
def nextId (floor : Nat) (t : Index V K key) : Nat :=
  (t.rows.map Row.id).foldr max floor + 1

theorem le_foldr_max (l : List Nat) (floor : Nat) : floor ≤ l.foldr max floor := by
  induction l with
  | nil => exact Nat.le_refl _
  | cons a l ih => exact Nat.le_trans ih (Nat.le_max_right _ _)

theorem mem_le_foldr_max {l : List Nat} {n : Nat} (floor : Nat) (h : n ∈ l) :
    n ≤ l.foldr max floor := by
  induction l with
  | nil => cases h
  | cons a l ih =>
    rcases List.mem_cons.mp h with rfl | h'
    · exact Nat.le_max_left _ _
    · exact Nat.le_trans (ih h') (Nat.le_max_right _ _)

theorem id_lt_nextId {t : Index V K key} {r : Row V} (floor : Nat) (h : r ∈ t.rows) :
    r.id < t.nextId floor :=
  Nat.lt_succ_of_le (mem_le_foldr_max floor (List.mem_map_of_mem h))

theorem valueOf_eq_some_iff {t : Index V K key} {id : Nat} {v : V} :
    t.valueOf id = some v ↔ (⟨id, v⟩ : Row V) ∈ t.rows := by
  constructor
  · intro h
    obtain ⟨r, hr, rfl⟩ := Option.map_eq_some_iff.mp h
    have hid : r.id = id := by simpa using List.find?_some hr
    exact hid ▸ List.mem_of_find?_eq_some hr
  · intro h
    obtain ⟨r, hr⟩ : ∃ r, t.rows.find? (fun r => r.id = id) = some r := by
      rw [← Option.isSome_iff_exists, List.find?_isSome]
      exact ⟨_, h, by simp⟩
    have hid : r.id = id := by simpa using List.find?_some hr
    have heq : r = ⟨id, v⟩ :=
      List.inj_on_of_nodup_map t.ids_nodup (List.mem_of_find?_eq_some hr) h hid
    simp [valueOf, hr, heq]

/-- A number keeps its value when rows are added. -/
theorem valueOf_of_prefix {t t' : Index V K key} {id : Nat} {v : V}
    (hp : t.rows <+: t'.rows) (h : t.valueOf id = some v) : t'.valueOf id = some v :=
  valueOf_eq_some_iff.mpr (hp.subset (valueOf_eq_some_iff.mp h))

/-- The values of a table. -/
def Holds (t : Index V K key) (v : V) : Prop := ∃ r ∈ t.rows, r.value = v

theorem holds_iff {t : Index V K key} {v : V} : t.Holds v ↔ ∃ id, t.valueOf id = some v := by
  constructor
  · rintro ⟨r, hr, rfl⟩
    exact ⟨r.id, valueOf_eq_some_iff.mpr hr⟩
  · rintro ⟨id, h⟩
    exact ⟨_, valueOf_eq_some_iff.mp h, rfl⟩

/-- A value has one number. -/
theorem valueOf_inj {t : Index V K key} {i j : Nat} {v : V} (hi : t.valueOf i = some v)
    (hj : t.valueOf j = some v) : i = j := by
  have heq : (⟨i, v⟩ : Row V) = ⟨j, v⟩ := List.inj_on_of_nodup_map t.keys_nodup
    (valueOf_eq_some_iff.mp hi) (valueOf_eq_some_iff.mp hj) rfl
  exact congrArg Row.id heq

variable [DecidableEq K]

/-- `SELECT id WHERE value = ?`, under the key's comparison. -/
def idOf (t : Index V K key) (v : V) : Option Nat :=
  (t.rows.find? (fun r => key r.value = key v)).map Row.id

theorem not_mem_keys_of_idOf_none {t : Index V K key} {v : V} (h : t.idOf v = none) :
    key v ∉ t.rows.map (fun r => key r.value) := by
  intro hmem
  obtain ⟨r, hr, hk⟩ := List.mem_map.mp hmem
  have := List.find?_eq_none.mp (Option.map_eq_none_iff.mp h) r hr
  simp [hk] at this

/-- Add a row for a value that has none. -/
def insert (floor : Nat) (t : Index V K key) (v : V) (h : t.idOf v = none) : Index V K key where
  rows := t.rows ++ [⟨t.nextId floor, v⟩]
  ids_nodup := by
    rw [List.map_append, List.nodup_append]
    refine ⟨t.ids_nodup, List.nodup_singleton _, ?_⟩
    rintro a ha b hb rfl
    obtain ⟨r, hr, rfl⟩ := List.mem_map.mp ha
    have hb' : r.id = t.nextId floor := by simpa using hb
    exact absurd (id_lt_nextId floor hr) (by omega)
  keys_nodup := by
    rw [List.map_append, List.nodup_append]
    refine ⟨t.keys_nodup, List.nodup_singleton _, ?_⟩
    rintro a ha b hb rfl
    have hb' : a = key v := by simpa using hb
    exact not_mem_keys_of_idOf_none h (hb' ▸ ha)

/-- Look a value up and add it when it is missing: its number, and the table. -/
def create (floor : Nat) (t : Index V K key) (v : V) : Nat × Index V K key :=
  match h : t.idOf v with
  | some id => (id, t)
  | none    => (t.nextId floor, t.insert floor v h)

theorem create_of_some {floor : Nat} {t : Index V K key} {v : V} {id : Nat}
    (h : t.idOf v = some id) : t.create floor v = (id, t) := by
  unfold create
  split
  next id' h' => rw [h] at h'; cases h'; rfl
  next h' => rw [h] at h'; cases h'

theorem create_of_none {floor : Nat} {t : Index V K key} {v : V} (h : t.idOf v = none) :
    t.create floor v = (t.nextId floor, t.insert floor v h) := by
  unfold create
  split
  next id' h' => rw [h] at h'; cases h'
  next h' => rfl

/-- Rows are only added, at the end. -/
theorem rows_prefix_create (floor : Nat) (t : Index V K key) (v : V) :
    t.rows <+: (t.create floor v).2.rows := by
  cases h : t.idOf v with
  | some id => simp only [create_of_some h, List.prefix_rfl]
  | none    => rw [create_of_none h]; exact List.prefix_append _ _

theorem idOf_eq_some {t : Index V K key} {id : Nat} {v : V} (h : t.idOf v = some id) :
    ∃ v', t.valueOf id = some v' ∧ key v' = key v := by
  obtain ⟨r, hr, rfl⟩ := Option.map_eq_some_iff.mp h
  refine ⟨r.value, valueOf_eq_some_iff.mpr (List.mem_of_find?_eq_some hr), ?_⟩
  simpa using List.find?_some hr

theorem valueOf_create_of_some {floor : Nat} {t : Index V K key} {v w : V} {id : Nat}
    (h : t.valueOf id = some w) : (t.create floor v).2.valueOf id = some w :=
  valueOf_of_prefix (rows_prefix_create floor t v) h

/-- The number `create` answers reads back as a value of the same key. -/
theorem valueOf_create (floor : Nat) (t : Index V K key) (v : V) :
    ∃ v', (t.create floor v).2.valueOf (t.create floor v).1 = some v' ∧ key v' = key v := by
  cases h : t.idOf v with
  | some id => rw [create_of_some h]; exact idOf_eq_some h
  | none =>
    rw [create_of_none h]
    refine ⟨v, valueOf_eq_some_iff.mpr ?_, rfl⟩
    show _ ∈ t.rows ++ [_]
    simp

/-- Under an injective key the number reads back as the value itself. -/
theorem valueOf_create_of_injective (hkey : Function.Injective key) (floor : Nat)
    (t : Index V K key) (v : V) :
    (t.create floor v).2.valueOf (t.create floor v).1 = some v := by
  obtain ⟨v', h, hk⟩ := valueOf_create floor t v
  exact hkey hk ▸ h

/-! ## Values the key tells apart

    Rows have distinct keys, so a value that has a row of its own is found under that
    row. A value that is looked up or added reads back as itself as long as no other
    value of its key is in the table. -/

theorem idOf_of_mem {t : Index V K key} {id : Nat} {v : V} (h : (⟨id, v⟩ : Row V) ∈ t.rows) :
    t.idOf v = some id := by
  obtain ⟨r, hr⟩ : ∃ r, t.rows.find? (fun r => key r.value = key v) = some r := by
    rw [← Option.isSome_iff_exists, List.find?_isSome]
    exact ⟨_, h, by simp⟩
  have hkey : key r.value = key v := by simpa using List.find?_some hr
  have heq : r = ⟨id, v⟩ :=
    List.inj_on_of_nodup_map t.keys_nodup (List.mem_of_find?_eq_some hr) h hkey
  simp [idOf, hr, heq]

theorem idOf_create {floor : Nat} {t : Index V K key} {v : V} :
    (t.create floor v).2.idOf v = some (t.create floor v).1 := by
  cases h : t.idOf v with
  | some id => rw [create_of_some h]; exact h
  | none =>
    rw [create_of_none h]
    refine idOf_of_mem ?_
    show _ ∈ t.rows ++ [_]
    simp

/-- A value that is found stays where it is. -/
theorem idOf_of_prefix {t t' : Index V K key} {id : Nat} {v : V} (hp : t.rows <+: t'.rows)
    (h : t.idOf v = some id) : t'.idOf v = some id := by
  obtain ⟨suffix, hrows⟩ := hp
  obtain ⟨r, hr, hid⟩ := Option.map_eq_some_iff.mp h
  unfold idOf
  rw [← hrows, List.find?_append, hr]
  exact congrArg some hid

/-- Two values are found under one number only where their keys agree. -/
theorem key_eq_of_idOf_eq {t : Index V K key} {id : Nat} {v w : V} (hv : t.idOf v = some id)
    (hw : t.idOf w = some id) : key v = key w := by
  obtain ⟨v', hv', hkey⟩ := idOf_eq_some hv
  obtain ⟨w', hw', hkey'⟩ := idOf_eq_some hw
  rw [hv', Option.some.injEq] at hw'
  rw [← hkey, ← hkey', hw']

/-- `create` adds the value it was given, and only where it found none of its key. -/
theorem mem_rows_create {floor : Nat} {t : Index V K key} {v : V} {r : Row V}
    (h : r ∈ (t.create floor v).2.rows) : r ∈ t.rows ∨ (r.value = v ∧ t.idOf v = none) := by
  cases hfound : t.idOf v with
  | some id =>
    rw [create_of_some hfound] at h
    exact .inl h
  | none =>
    rw [create_of_none hfound] at h
    have h : r ∈ t.rows ++ [⟨t.nextId floor, v⟩] := h
    rcases List.mem_append.mp h with h | h
    · exact .inl h
    · rw [List.mem_singleton.mp h]
      exact .inr ⟨rfl, rfl⟩

/-- **Exact reading.** The number `create` answers reads back as the value it was
    given if the key tells that value apart from every value of the table. -/
theorem valueOf_create_of_distinct {floor : Nat} {t : Index V K key} {v : V}
    (h : ∀ w, t.Holds w → key w = key v → w = v) :
    (t.create floor v).2.valueOf (t.create floor v).1 = some v := by
  cases hfound : t.idOf v with
  | some id =>
    rw [create_of_some hfound]
    obtain ⟨w, hw, hkey⟩ := idOf_eq_some hfound
    rw [← h w (holds_iff.mpr ⟨id, hw⟩) hkey]
    exact hw
  | none =>
    rw [create_of_none hfound]
    refine valueOf_eq_some_iff.mpr ?_
    show _ ∈ t.rows ++ [_]
    simp

end Index
