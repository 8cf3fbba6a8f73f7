import XChainDecoder.Ingest.Pass

/-! # Reading a number back

    `createAddress` looks an address up under the collation before it adds one, so a
    number reads back as what was passed only if no other spelling of the address is in
    the table. Here the spellings a table may meet are a set that the collation tells
    apart (`Apart`). -/

namespace XChainDecoder

namespace Tables

variable {weight : String → String} {t t' t'' : Tables weight} {S : String → Prop}

/-- A number reads back as an address, a missing one as the blank address. -/
def Reads (t : Tables weight) (id : Nat) (a : Option String) : Prop :=
  t.indexAddresses.valueOf id = some (a.getD "")

theorem Reads.grows {id : Nat} {a : Option String} (h : t.Reads id a) (hgrows : Grows t t') :
    t'.Reads id a :=
  Index.valueOf_of_prefix hgrows.addresses h

/-- Of the spellings in a set the collation merges none. -/
def Apart (weight : String → String) (S : String → Prop) : Prop :=
  ∀ v w, S v → S w → weight v = weight w → v = w

/-- The table of addresses holds spellings of a set only, with the blank one reserved. -/
structure Within (S : String → Prop) (t : Tables weight) : Prop where
  values : ∀ v, t.indexAddresses.Holds v → S v
  blank  : t.indexAddresses.valueOf 1 = some ""

theorem Within.congr (h : Within S t) (heq : t'.indexAddresses = t.indexAddresses) : Within S t' :=
  ⟨heq ▸ h.values, heq ▸ h.blank⟩

theorem within_fresh (hblank : S "") : Within S (fresh weight) := by
  refine ⟨?_, rfl⟩
  rintro v ⟨r, hr, rfl⟩
  rw [List.mem_singleton.mp hr]
  exact hblank

theorem Within.createAddress (h : Within S t) {a : Option String} (ha : ∀ v ∈ a, S v) :
    Within S (t.createAddress a).2 := by
  have hgrows := createAddress_grows t a
  refine ⟨?_, Index.valueOf_of_prefix hgrows.addresses h.blank⟩
  cases a with
  | none => exact h.values
  | some a =>
    by_cases hempty : a = ""
    · simpa [Tables.createAddress, hempty] using h.values
    -- a row that was there, or the new one
    · rintro v ⟨r, hr, rfl⟩
      simp only [Tables.createAddress, if_neg hempty] at hr
      rcases Index.mem_rows_create hr with hr | ⟨hvalue, -⟩
      · exact h.values _ ⟨r, hr, rfl⟩
      · rw [hvalue]
        exact ha a rfl

/-- **Exact interning.** -/
theorem reads_createAddress (hS : Apart weight S) (h : Within S t) {a : Option String}
    (ha : ∀ v ∈ a, S v) : (t.createAddress a).2.Reads (t.createAddress a).1 a := by
  cases a with
  | none => exact h.blank
  | some a =>
    by_cases hempty : a = ""
    · simpa [Tables.createAddress, hempty, Reads] using h.blank
    · simp only [Tables.createAddress, if_neg hempty]
      exact Index.valueOf_create_of_distinct (fun w hw hkey => hS w a (h.values w hw) (ha a rfl) hkey)

theorem createOptionalAddress_eq (t : Tables weight) (a : Option String) :
    t.createOptionalAddress a =
      if a.getD "" = "" then (none, t) else ((t.createAddress a).1, (t.createAddress a).2) := by
  cases a with
  | none => simp [createOptionalAddress]
  | some a =>
    by_cases hempty : a = "" <;> simp [createOptionalAddress, hempty]

theorem Within.createOptionalAddress (h : Within S t) {a : Option String} (ha : ∀ v ∈ a, S v) :
    Within S (t.createOptionalAddress a).2 := by
  rw [createOptionalAddress_eq]
  split
  · exact h
  · exact h.createAddress ha

theorem reads_createOptionalAddress (hS : Apart weight S) (h : Within S t) {a : Option String}
    (ha : ∀ v ∈ a, S v) : ∀ id ∈ (t.createOptionalAddress a).1,
    (t.createOptionalAddress a).2.Reads id a := by
  rw [createOptionalAddress_eq]
  split
  · nofun
  · intro id hid
    have hid : (t.createAddress a).1 = id := Option.some.inj hid
    rw [← hid]
    exact reads_createAddress hS h ha

end Tables

end XChainDecoder
