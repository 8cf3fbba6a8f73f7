import Mathlib.Data.List.Dedup
import XChainDecoder.Lib.Upsert
import XChainDecoder.Ingest.Forward

/-! # One registration for each address

    The table of dispensers is keyed by the transaction and the address, so the creates
    of one transaction are collapsed before they are inserted: one row for each
    address, with the latest expiration and the first oracle that was named.

    Two spellings are one address where the database gives them one number. Above the
    gate the creates are keyed by that number, and by the spelling itself where an
    address has none. -/

namespace XChainDecoder

/-! ## Section 1: The collapse -/

/-- `dispenserAddressKey`. -/
def dispenserAddressKey (addressIdOf : String → Option Nat) (address : String) : String :=
  match addressIdOf address with
  | none           => "address:" ++ address
  | some addressId => "address-id:" ++ Nat.repr addressId

/-- `collapseRegistrationsByAddressId`. A single address needs no lookup. -/
def collapseRegistrationsByAddressId (addressIdOf : String → Option Nat)
    (candidates : List DispenserCreate) : List DispenserCreate :=
  if (createAddresses candidates).dedup.length < 2 then collapseRegistrationsByKey id candidates
  else collapseRegistrationsByKey (dispenserAddressKey addressIdOf) candidates

/-- `collapseDispenserRegistrations`. -/
def collapseDispenserRegistrations (rules : Rules) (blockTime : Int)
    (addressIdOf : String → Option Nat) (candidates : List DispenserCreate) :
    List DispenserCreate :=
  if gateActive rules.addressIdCollapseActivation blockTime then
    collapseRegistrationsByAddressId addressIdOf candidates
  else collapseRegistrationsByKey id candidates

/-! ## Section 2: What it owes -/

/-- The candidates that name an address, each with it. -/
def named (candidates : List DispenserCreate) : List (String × DispenserCreate) :=
  candidates.filterMap (fun c => (c.address.filter (!·.isEmpty)).map (fun address => (address, c)))

/-- Two addresses that are one to the table: they have one number, or neither has a
    number and they are spelled alike. -/
def SameAddress (addressIdOf : String → Option Nat) (a b : String) : Prop :=
  addressIdOf a = addressIdOf b ∧ (addressIdOf a = none → a = b)

instance (addressIdOf : String → Option Nat) (a b : String) :
    Decidable (SameAddress addressIdOf a b) :=
  inferInstanceAs (Decidable (_ ∧ _))

/-- The oracles the candidates of an address name, in their order. -/
def oraclesNamed (addressIdOf : String → Option Nat) (candidates : List DispenserCreate)
    (address : String) : List String :=
  ((named candidates).filter (fun n => SameAddress addressIdOf n.1 address)).filterMap
    (fun n => n.2.oracleAddress.filter (!·.isEmpty))

/-- The rows stand for the candidates: one for each address, open at least as long as
    each of its candidates, under the first oracle one of them named. -/
structure StandsFor (addressIdOf : String → Option Nat) (candidates rows : List DispenserCreate) :
    Prop where
  /-- a row of its own address -/
  addressed : ∀ row ∈ rows, ∃ address, row.address = some address ∧ address ≠ ""
  /-- no number has two rows -/
  ids_nodup : ((createAddresses rows).filterMap addressIdOf).Nodup
  /-- no two rows are of one address -/
  apart : (createAddresses rows).Pairwise (fun a b => ¬ SameAddress addressIdOf a b)
  /-- no row is of an address no candidate names -/
  named : ∀ address ∈ createAddresses rows, address ∈ createAddresses candidates
  /-- every candidate is held open by the row of its address -/
  held : ∀ c ∈ candidates, ∀ address, c.address = some address → address ≠ "" →
    ∃ row ∈ rows, ∃ operating, row.address = some operating ∧
      SameAddress addressIdOf operating address ∧ c.expiration ≤ row.expiration ∧
      row.oracleAddress = (oraclesNamed addressIdOf candidates address).head?

/-! ## Section 3: The collapse by key -/

theorem filter_of_ne {address : String} (h : address ≠ "") :
    (some address).filter (!·.isEmpty) = some address := by
  simp [Option.filter, h]

theorem length_createAddresses {rows : List DispenserCreate}
    (h : ∀ row ∈ rows, ∃ address, row.address = some address ∧ address ≠ "") :
    (createAddresses rows).length = rows.length := by
  refine List.filterMap_length_eq_length.mpr (fun row hrow => ?_)
  obtain ⟨address, haddress, hne⟩ := h row hrow
  rw [haddress, filter_of_ne hne]
  rfl

/-- The registration a first candidate opens. -/
def openingRegistration (new : DispenserCreate) : DispenserCreate :=
  { new with oracleAddress := new.oracleAddress.filter (!·.isEmpty) }

theorem addRegistration_eq_upsert {κ : Type} [DecidableEq κ] (keyOf : String → κ)
    (address : String) (new : DispenserCreate) (collapsed : List (κ × DispenserCreate)) :
    addRegistration keyOf address new collapsed =
      Upsert.upsert (keyOf address) (openingRegistration new) (fun old => mergeRegistration old new)
        collapsed := by
  induction collapsed with
  | nil => rfl
  | cons entry rest ih =>
    obtain ⟨key, old⟩ := entry
    simp only [addRegistration, Upsert.upsert, ih]

section ByKey

variable {κ : Type} [DecidableEq κ] {keyOf : String → κ} {candidates : List DispenserCreate}

/-- The entries of a collapse. -/
def collapsedEntries (keyOf : String → κ) (candidates : List DispenserCreate) :
    List (κ × DispenserCreate) :=
  Upsert.collect (fun n => keyOf n.1) (fun n => openingRegistration n.2)
    (fun old n => mergeRegistration old n.2) (named candidates)

theorem collapseRegistrationsByKey_eq (keyOf : String → κ) (candidates : List DispenserCreate) :
    collapseRegistrationsByKey keyOf candidates =
      (collapsedEntries keyOf candidates).map Prod.snd := by
  unfold collapseRegistrationsByKey collapsedEntries Upsert.collect named
  rw [List.foldl_filterMap]
  congr 2
  funext collapsed c
  cases c.address.filter (!·.isEmpty) with
  | none => rfl
  | some address => exact addRegistration_eq_upsert keyOf address c collapsed

theorem mem_named {n : String × DispenserCreate} :
    n ∈ named candidates ↔ n.2 ∈ candidates ∧ n.2.address = some n.1 ∧ n.1 ≠ "" := by
  obtain ⟨address, c⟩ := n
  simp only [named, List.mem_filterMap, Option.map_eq_some_iff, Option.filter_eq_some_iff,
    Prod.mk.injEq]
  constructor
  · intro h
    obtain ⟨c', hc, a, ⟨haddress, hne⟩, rfl, rfl⟩ := h
    exact ⟨hc, haddress, by simpa using hne⟩
  · intro h
    obtain ⟨hc, haddress, hne⟩ := h
    exact ⟨c, hc, address, ⟨haddress, by simpa using hne⟩, rfl, rfl⟩

theorem createAddresses_eq_named (candidates : List DispenserCreate) :
    createAddresses candidates = (named candidates).map Prod.fst := by
  unfold createAddresses named
  rw [List.map_filterMap]
  congr 1
  funext c
  cases c.address.filter (!·.isEmpty) <;> rfl

/-- What the merge of some candidates keeps of them. -/
structure Merges (group : List (String × DispenserCreate)) (row : DispenserCreate) : Prop where
  address    : ∃ n ∈ group, row.address = n.2.address
  expiration : ∀ n ∈ group, n.2.expiration ≤ row.expiration
  oracle     : row.oracleAddress =
    (group.filterMap (fun n => n.2.oracleAddress.filter (!·.isEmpty))).head?

theorem merges_opening (n : String × DispenserCreate) : Merges [n] (openingRegistration n.2) where
  address    := ⟨n, by simp, rfl⟩
  expiration := by simp [openingRegistration]
  oracle     := by
    cases h : n.2.oracleAddress.filter (!·.isEmpty) <;> simp [openingRegistration, h]

theorem Merges.merge {group : List (String × DispenserCreate)} {row : DispenserCreate}
    (h : Merges group row) (n : String × DispenserCreate) :
    Merges (group ++ [n]) (mergeRegistration row n.2) where
  address := by
    obtain ⟨n', hn', haddress⟩ := h.address
    exact ⟨n', List.mem_append_left _ hn', haddress⟩
  expiration := by
    intro n' hn'
    show n'.2.expiration ≤ if row.expiration < n.2.expiration then n.2.expiration else row.expiration
    rcases List.mem_append.mp hn' with hold | hnew
    · have := h.expiration n' hold
      split <;> omega
    · rw [List.mem_singleton.mp hnew]
      split <;> omega
  oracle := by
    rw [List.filterMap_append, List.head?_append, ← h.oracle]
    -- The row's own oracle is never blank: it is the first that was named.
    have hown : ∀ oracle, row.oracleAddress = some oracle → oracle ≠ "" := by
      intro oracle horacle
      have hmem := List.mem_of_head? (h.oracle ▸ horacle)
      obtain ⟨n', -, hfilter⟩ := List.mem_filterMap.mp hmem
      simpa using (Option.filter_eq_some_iff.mp hfilter).2
    cases hold : row.oracleAddress with
    | some oracle => simp [mergeRegistration, hold, hown oracle hold]
    | none =>
      cases hnew : n.2.oracleAddress with
      | none => simp [mergeRegistration, hold, hnew]
      | some oracle =>
        by_cases hblank : oracle = ""
        · simp [mergeRegistration, hold, hnew, hblank]
        · simp [mergeRegistration, hold, hnew, hblank, filter_of_ne hblank]

theorem merges_of_mem_entries {key : κ} {row : DispenserCreate}
    (h : (key, row) ∈ collapsedEntries keyOf candidates) :
    Merges ((named candidates).filter (fun n => keyOf n.1 = key)) row :=
  Upsert.merged_induction merges_opening (fun _ n _ h => h.merge n) (Upsert.mem_collect.mp h)

/-- The address of an entry is one of its key. -/
theorem address_of_mem_entries {key : κ} {row : DispenserCreate}
    (h : (key, row) ∈ collapsedEntries keyOf candidates) :
    ∃ address ∈ createAddresses candidates,
      row.address = some address ∧ address ≠ "" ∧ keyOf address = key := by
  obtain ⟨n, hn, haddress⟩ := (merges_of_mem_entries h).address
  obtain ⟨hn, hkey⟩ := List.mem_filter.mp hn
  obtain ⟨-, hnamed, hne⟩ := mem_named.mp hn
  refine ⟨n.1, ?_, haddress.trans hnamed, hne, by simpa using hkey⟩
  rw [createAddresses_eq_named]
  exact List.mem_map_of_mem hn

theorem createAddresses_collapse (keyOf : String → κ) (candidates : List DispenserCreate) :
    (createAddresses (collapseRegistrationsByKey keyOf candidates)).map keyOf =
      (collapsedEntries keyOf candidates).map Prod.fst := by
  rw [collapseRegistrationsByKey_eq]
  have hall : ∀ entries : List (κ × DispenserCreate),
      (∀ e ∈ entries, ∃ address, e.2.address = some address ∧ address ≠ "" ∧
        keyOf address = e.1) →
      (createAddresses (entries.map Prod.snd)).map keyOf = entries.map Prod.fst := by
    intro entries hentries
    induction entries with
    | nil => rfl
    | cons e rest ih =>
      obtain ⟨address, haddress, hne, hkey⟩ := hentries e List.mem_cons_self
      have hrest := ih (fun e he => hentries e (List.mem_cons_of_mem _ he))
      have hhead : createAddresses (e.2 :: rest.map Prod.snd) =
          address :: createAddresses (rest.map Prod.snd) :=
        List.filterMap_cons_some (by rw [haddress]; exact filter_of_ne hne)
      rw [List.map_cons, hhead, List.map_cons, hkey, hrest, List.map_cons]
  refine hall _ (fun e he => ?_)
  obtain ⟨address, -, haddress⟩ := address_of_mem_entries he
  exact ⟨address, haddress⟩

/-- **Collapse by a key.** A key that tells two addresses apart exactly where the table
    does leaves rows that stand for the candidates. -/
theorem standsFor_of_key {addressIdOf : String → Option Nat}
    (hkey : ∀ a ∈ createAddresses candidates, ∀ b ∈ createAddresses candidates,
      keyOf a = keyOf b ↔ SameAddress addressIdOf a b) :
    StandsFor addressIdOf candidates (collapseRegistrationsByKey keyOf candidates) := by
  have hmem : ∀ row ∈ collapseRegistrationsByKey keyOf candidates,
      ∃ address ∈ createAddresses candidates, row.address = some address ∧ address ≠ "" := by
    intro row hrow
    rw [collapseRegistrationsByKey_eq] at hrow
    obtain ⟨e, he, rfl⟩ := List.mem_map.mp hrow
    obtain ⟨address, hin, haddress, hne, -⟩ := address_of_mem_entries he
    exact ⟨address, hin, haddress, hne⟩
  have hnamed : ∀ address ∈ createAddresses (collapseRegistrationsByKey keyOf candidates),
      address ∈ createAddresses candidates := by
    intro address haddress
    obtain ⟨row, hrow, hfilter⟩ := List.mem_filterMap.mp haddress
    obtain ⟨operating, hin, hoperating, -⟩ := hmem row hrow
    have heq := (Option.filter_eq_some_iff.mp hfilter).1
    rw [hoperating, Option.some.injEq] at heq
    exact heq ▸ hin
  have hnodup := Upsert.nodup_keys_collect (fun n : String × DispenserCreate => keyOf n.1)
    (fun n => openingRegistration n.2) (fun old n => mergeRegistration old n.2) (named candidates)
  -- one row a key, so two rows are of two addresses
  have hapart : (createAddresses (collapseRegistrationsByKey keyOf candidates)).Pairwise
      (fun a b => ¬ SameAddress addressIdOf a b) := by
    have hkeys : ((createAddresses (collapseRegistrationsByKey keyOf candidates)).map keyOf).Nodup := by
      rw [createAddresses_collapse]
      exact hnodup
    refine (List.pairwise_map.mp hkeys).imp_of_mem ?_
    intro a b ha hb hne hsame
    exact hne ((hkey a (hnamed a ha) b (hnamed b hb)).mpr hsame)
  constructor
  · intro row hrow
    obtain ⟨address, -, haddress, hne⟩ := hmem row hrow
    exact ⟨address, haddress, hne⟩
  · refine List.pairwise_filterMap.mpr (hapart.imp ?_)
    intro a b hne id ha id' hb heq
    subst heq
    exact hne ⟨by rw [ha, hb], by simp [ha]⟩
  · exact hapart
  · exact hnamed
  · intro c hc address haddress hne
    -- a candidate is told by the row of its key
    have hn : (address, c) ∈ named candidates := mem_named.mpr ⟨hc, haddress, hne⟩
    have hin : address ∈ createAddresses candidates := by
      rw [createAddresses_eq_named]
      exact List.mem_map_of_mem hn
    obtain ⟨row, hrow⟩ := Upsert.exists_mem_collect (fun n : String × DispenserCreate => keyOf n.1)
      (fun n => openingRegistration n.2) (fun old n => mergeRegistration old n.2) hn
    obtain ⟨operating, hoperating, hrowaddress, -, hkeyeq⟩ := address_of_mem_entries hrow
    have hmerges := merges_of_mem_entries hrow
    refine ⟨row, ?_, operating, hrowaddress, (hkey _ hoperating _ hin).mp hkeyeq, ?_, ?_⟩
    · rw [collapseRegistrationsByKey_eq]
      exact List.mem_map_of_mem hrow
    · exact hmerges.expiration (address, c) (List.mem_filter.mpr ⟨hn, by simp⟩)
    · rw [hmerges.oracle, oraclesNamed]
      congr 2
      refine List.filter_congr (fun n hn' => ?_)
      have hin' : n.1 ∈ createAddresses candidates := by
        rw [createAddresses_eq_named]
        exact List.mem_map_of_mem hn'
      simp only [hkey n.1 hin' address hin]

/-- Two keys that tell the same addresses apart collapse alike. -/
theorem collapseRegistrationsByKey_congr {κ' : Type} [DecidableEq κ'] {keyOf' : String → κ'}
    (h : ∀ a ∈ createAddresses candidates, ∀ b ∈ createAddresses candidates,
      keyOf a = keyOf b ↔ keyOf' a = keyOf' b) :
    collapseRegistrationsByKey keyOf candidates = collapseRegistrationsByKey keyOf' candidates := by
  rw [collapseRegistrationsByKey_eq, collapseRegistrationsByKey_eq]
  refine Upsert.collect_congr (fun n hn n' hn' => ?_)
  have hmem : ∀ m ∈ named candidates, m.1 ∈ createAddresses candidates := by
    intro m hm
    rw [createAddresses_eq_named]
    exact List.mem_map_of_mem hm
  exact h n.1 (hmem n hn) n'.1 (hmem n' hn')

end ByKey

/-! ## Section 4: The collapse by number -/

theorem repr_injective {m n : Nat} (h : Nat.repr m = Nat.repr n) : m = n := by
  have hdigits : Nat.toDigits 10 m = Nat.toDigits 10 n := by
    rw [← Nat.toList_repr, ← Nat.toList_repr, h]
  have hvalue := congrArg (fun digits => Nat.ofDigitChars 10 digits 0) hdigits
  simpa only [Nat.ofDigitChars_toDigits (b := 10) (by decide) (by decide)] using hvalue

/-- The two kinds of key are never equal: they part after `address`. -/
theorem spelling_ne_number (address : String) (id : Nat) :
    "address:" ++ address ≠ "address-id:" ++ Nat.repr id := by
  intro h
  have hchars := congrArg String.toList h
  simp at hchars

theorem dispenserAddressKey_eq_iff (addressIdOf : String → Option Nat) (a b : String) :
    dispenserAddressKey addressIdOf a = dispenserAddressKey addressIdOf b ↔
      SameAddress addressIdOf a b := by
  unfold dispenserAddressKey SameAddress
  cases ha : addressIdOf a with
  | none =>
    cases hb : addressIdOf b with
    | none => simp
    | some j => simpa using spelling_ne_number a j
  | some i =>
    cases hb : addressIdOf b with
    | none => simpa using (spelling_ne_number b i).symm
    | some j =>
      simp only [String.append_right_inj, Option.some.injEq, reduceCtorEq, false_implies, and_true]
      exact ⟨repr_injective, fun h => by rw [h]⟩

theorem eq_of_single {candidates : List DispenserCreate}
    (h : (createAddresses candidates).dedup.length < 2) :
    ∀ a ∈ createAddresses candidates, ∀ b ∈ createAddresses candidates, a = b := by
  intro a ha b hb
  have ha := List.mem_dedup.mpr ha
  have hb := List.mem_dedup.mpr hb
  cases hdedup : (createAddresses candidates).dedup with
  | nil =>
    rw [hdedup] at ha
    cases ha
  | cons c rest =>
    have hrest : rest = [] := by
      rw [hdedup, List.length_cons] at h
      exact List.length_eq_zero_iff.mp (by omega)
    rw [hdedup, hrest, List.mem_singleton] at ha hb
    rw [ha, hb]

/-- The rows of a collapse stand for its candidates, whatever numbers the addresses
    have. -/
theorem standsFor_collapse (addressIdOf : String → Option Nat) (candidates : List DispenserCreate) :
    StandsFor addressIdOf candidates (collapseRegistrationsByAddressId addressIdOf candidates) := by
  unfold collapseRegistrationsByAddressId
  by_cases hsingle : (createAddresses candidates).dedup.length < 2
  · rw [if_pos hsingle]
    refine standsFor_of_key (fun a ha b hb => ?_)
    have hab := eq_of_single hsingle a ha b hb
    simp [hab, SameAddress]
  · rw [if_neg hsingle]
    exact standsFor_of_key (fun a _ b _ => dispenserAddressKey_eq_iff addressIdOf a b)

/-! ## Section 5: The rows of a transaction -/

namespace Tables

variable {weight : String → String}

/-- The keys under which the registrations of a transaction are inserted. -/
def insertedKeys (txIndex : Int) : List DispenserCreate → Tables weight → List (Int × Nat)
  | [],      _ => []
  | c :: cs, t =>
      (txIndex, (t.createAddress c.address).1) :: insertedKeys txIndex cs (t.registerDispenser txIndex c)

theorem idOf_createAddress {t : Tables weight} {address : String} (hne : address ≠ "") :
    (t.createAddress (some address)).2.indexAddresses.idOf address =
      some (t.createAddress (some address)).1 := by
  simp only [createAddress, if_neg hne]
  exact Index.idOf_create

theorem createAddress_of_idOf {t : Tables weight} {address : String} {id : Nat} (hne : address ≠ "")
    (h : t.indexAddresses.idOf address = some id) : t.createAddress (some address) = (id, t) := by
  simp only [createAddress, if_neg hne, Index.create_of_some h]

theorem createAddresses_grows (addresses : List String) (t : Tables weight) :
    Grows t (t.createAddresses addresses) := by
  induction addresses generalizing t with
  | nil => exact Grows.refl t
  | cons address rest ih => exact (createAddress_grows t (some address)).trans (ih _)

/-- Every address of a list has a number once the list is interned. -/
theorem idOf_createAddresses {addresses : List String} (hne : ∀ a ∈ addresses, a ≠ "")
    (t : Tables weight) {address : String} (hmem : address ∈ addresses) :
    ∃ id, (t.createAddresses addresses).indexAddresses.idOf address = some id := by
  induction addresses generalizing t with
  | nil => cases hmem
  | cons a rest ih =>
    rcases List.mem_cons.mp hmem with heq | hrest
    · have hid := idOf_createAddress (t := t) (hne a List.mem_cons_self)
      have hgrows := createAddresses_grows rest (t.createAddress (some a)).2
      rw [heq]
      exact ⟨_, Index.idOf_of_prefix hgrows.addresses hid⟩
    · exact ih (fun b hb => hne b (List.mem_cons_of_mem _ hb)) _ hrest

theorem ne_of_mem_createAddresses {candidates : List DispenserCreate} {address : String}
    (h : address ∈ XChainDecoder.createAddresses candidates) : address ≠ "" := by
  rw [createAddresses_eq_named] at h
  obtain ⟨n, hn, rfl⟩ := List.mem_map.mp h
  exact (mem_named.mp hn).2.2

/-- What the pass collapses by is the function the database answers with. -/
theorem collapseDispenserRegistrations_eq {rules : Rules} {time : Int}
    (hactive : gateActive rules.addressIdCollapseActivation time = true)
    (candidates : List DispenserCreate) (t : Tables weight) :
    (t.collapseDispenserRegistrations rules time candidates).1 =
      XChainDecoder.collapseDispenserRegistrations rules time
        (t.collapseDispenserRegistrations rules time candidates).2.indexAddresses.idOf candidates := by
  unfold Tables.collapseDispenserRegistrations XChainDecoder.collapseDispenserRegistrations
    collapseRegistrationsByAddressId
  rw [if_pos hactive]
  by_cases hsingle : (XChainDecoder.createAddresses candidates).dedup.length < 2
  · have hraw : collapsesById rules time candidates = false := by
      simp [collapsesById, hsingle]
    simp [hraw, hsingle]
  · have hbyId : collapsesById rules time candidates = true := by
      simp only [collapsesById, hactive, Bool.true_and, decide_eq_true_eq]
      omega
    simp only [hbyId, hsingle, if_true, if_false]
    refine collapseRegistrationsByKey_congr (fun a ha b hb => ?_)
    rw [dispenserAddressKey_eq_iff]
    obtain ⟨id, hid⟩ := idOf_createAddresses (fun _ => ne_of_mem_createAddresses) t ha
    simp [SameAddress, hid]

theorem insertDispenser_grows (t : Tables weight) (n : NewDispenser) :
    t.indexAddresses.rows <+: (t.insertDispenser n).indexAddresses.rows := by
  have hgrows := (createAddress_grows t n.address).trans
    ((createOptionalAddress_grows _ n.oracleAddress).trans
      (createOptionalAddress_grows _ (if n.sourceAddress = n.address then none else n.sourceAddress)))
  simp only [insertDispenser]
  by_cases htaken : (n.txIndex, (t.createAddress n.address).1) ∈
      t.dispensers.map (fun d => (d.txIndex, d.addressId))
  · rw [if_pos htaken]
    exact hgrows.addresses
  · rw [if_neg htaken]
    exact hgrows.addresses

/-- Where every registration has a number beforehand, the keys are those numbers. -/
theorem insertedKeys_eq {txIndex : Int} {t : Tables weight} {registrations : List DispenserCreate}
    (h : ∀ c ∈ registrations, ∃ address id, c.address = some address ∧ address ≠ "" ∧
      t.indexAddresses.idOf address = some id) :
    insertedKeys txIndex registrations t =
      ((XChainDecoder.createAddresses registrations).filterMap t.indexAddresses.idOf).map
        (fun id => (txIndex, id)) := by
  induction registrations generalizing t with
  | nil => rfl
  | cons c rest ih =>
    obtain ⟨address, id, haddress, hne, hid⟩ := h c List.mem_cons_self
    have hstarts : t.indexAddresses.rows <+: (t.registerDispenser txIndex c).indexAddresses.rows :=
      insertDispenser_grows t _
    have hrest := ih (t := t.registerDispenser txIndex c) (fun c' hc' => by
      obtain ⟨a, i, ha, hane, hi⟩ := h c' (List.mem_cons_of_mem _ hc')
      exact ⟨a, i, ha, hane, Index.idOf_of_prefix hstarts hi⟩)
    -- The numbers of the other registrations are not touched by this insert.
    have hstill : (XChainDecoder.createAddresses rest).filterMap
        (t.registerDispenser txIndex c).indexAddresses.idOf =
        (XChainDecoder.createAddresses rest).filterMap t.indexAddresses.idOf := by
      refine List.filterMap_congr (fun a ha => ?_)
      obtain ⟨c', hc', hfilter⟩ := List.mem_filterMap.mp ha
      obtain ⟨a', i, ha', -, hi⟩ := h c' (List.mem_cons_of_mem _ hc')
      have heq := (Option.filter_eq_some_iff.mp hfilter).1
      rw [ha', Option.some.injEq] at heq
      subst heq
      rw [hi, Index.idOf_of_prefix hstarts hi]
    have hhead : XChainDecoder.createAddresses (c :: rest) =
        address :: XChainDecoder.createAddresses rest :=
      List.filterMap_cons_some (by rw [haddress]; exact filter_of_ne hne)
    rw [hhead, List.filterMap_cons_some hid, List.map_cons, ← hstill, ← hrest, insertedKeys,
      haddress, createAddress_of_idOf hne hid]

theorem length_insertedKeys (txIndex : Int) (registrations : List DispenserCreate)
    (t : Tables weight) : (insertedKeys txIndex registrations t).length = registrations.length := by
  induction registrations generalizing t with
  | nil => rfl
  | cons c rest ih => rw [insertedKeys, List.length_cons, ih, List.length_cons]

/-- No registration of a transaction meets the key of another. -/
theorem nodup_insertedKeys {rules : Rules} {time : Int}
    (hactive : gateActive rules.addressIdCollapseActivation time = true)
    (candidates : List DispenserCreate) (txIndex : Int) (t : Tables weight) :
    (insertedKeys txIndex (t.collapseDispenserRegistrations rules time candidates).1
      (t.collapseDispenserRegistrations rules time candidates).2).Nodup := by
  have hstands : StandsFor (t.collapseDispenserRegistrations rules time candidates).2.indexAddresses.idOf
      candidates (t.collapseDispenserRegistrations rules time candidates).1 := by
    rw [collapseDispenserRegistrations_eq hactive]
    unfold XChainDecoder.collapseDispenserRegistrations
    rw [if_pos hactive]
    exact standsFor_collapse _ candidates
  -- every address has been interned, so its number is known
  by_cases hbyId : collapsesById rules time candidates = true
  · have hkeyed : (t.collapseDispenserRegistrations rules time candidates).2 =
        t.createAddresses (XChainDecoder.createAddresses candidates) := by
      unfold Tables.collapseDispenserRegistrations
      rw [if_pos hbyId]
    rw [insertedKeys_eq]
    · exact hstands.ids_nodup.map (fun i j h => (Prod.mk.inj h).2)
    · intro c hc
      obtain ⟨address, haddress, hne⟩ := hstands.addressed c hc
      have hmem : address ∈ XChainDecoder.createAddresses candidates := by
        refine hstands.named address (List.mem_filterMap.mpr ⟨c, hc, ?_⟩)
        rw [haddress]
        exact filter_of_ne hne
      obtain ⟨id, hid⟩ := idOf_createAddresses (fun _ => ne_of_mem_createAddresses) t hmem
      exact ⟨address, id, haddress, hne, hkeyed ▸ hid⟩
  · -- One spelling, hence at most one row.
    have hsingle : (XChainDecoder.createAddresses candidates).dedup.length < 2 := by
      simp only [collapsesById, hactive, Bool.true_and, decide_eq_true_eq] at hbyId
      omega
    have hone : (t.collapseDispenserRegistrations rules time candidates).1.length ≤ 1 := by
      have hlen : (XChainDecoder.createAddresses
          (t.collapseDispenserRegistrations rules time candidates).1).length =
          (t.collapseDispenserRegistrations rules time candidates).1.length := by
        exact length_createAddresses hstands.addressed
      rw [← hlen]
      refine Nat.le_of_not_lt (fun hlt => ?_)
      obtain ⟨a, b, rest, heq⟩ : ∃ a b rest, XChainDecoder.createAddresses
          (t.collapseDispenserRegistrations rules time candidates).1 = a :: b :: rest := by
        match hrows : XChainDecoder.createAddresses
            (t.collapseDispenserRegistrations rules time candidates).1 with
        | [] | [_] =>
          rw [hrows] at hlt
          simp at hlt
        | a :: b :: rest => exact ⟨a, b, rest, rfl⟩
      have hapart := hstands.apart
      rw [heq] at hapart
      have hab : a = b := eq_of_single hsingle a (hstands.named a (by simp [heq])) b
        (hstands.named b (by simp [heq]))
      exact List.rel_of_pairwise_cons hapart List.mem_cons_self (hab ▸ ⟨rfl, fun _ => rfl⟩)
    have hlen := length_insertedKeys txIndex
      (t.collapseDispenserRegistrations rules time candidates).1
      (t.collapseDispenserRegistrations rules time candidates).2
    match hkeys : insertedKeys txIndex (t.collapseDispenserRegistrations rules time candidates).1
        (t.collapseDispenserRegistrations rules time candidates).2 with
    | []             => exact List.nodup_nil
    | [key]          => exact List.nodup_singleton key
    | _ :: _ :: rest =>
      rw [hkeys] at hlen
      simp at hlen
      omega

end Tables

/-- **Held open long enough.** From the gate on, and whatever numbers the addresses have,
    the creates of a transaction come to one row for each address, which holds it open
    until its last candidate and names its first oracle; and no two rows of the
    transaction are inserted under one key. -/
theorem collapse_holds_open {rules : Rules} {time : Int}
    (hactive : gateActive rules.addressIdCollapseActivation time = true)
    (candidates : List DispenserCreate) :
    (∀ addressIdOf : String → Option Nat, StandsFor addressIdOf candidates
      (collapseDispenserRegistrations rules time addressIdOf candidates)) ∧
    ∀ (weight : String → String) (t : Tables weight) (txIndex : Int),
      let keyed := t.collapseDispenserRegistrations rules time candidates
      keyed.1 = collapseDispenserRegistrations rules time keyed.2.indexAddresses.idOf candidates ∧
        (Tables.insertedKeys txIndex keyed.1 keyed.2).Nodup := by
  constructor
  · intro addressIdOf
    unfold collapseDispenserRegistrations
    rw [if_pos hactive]
    exact standsFor_collapse addressIdOf candidates
  · intro weight t txIndex
    exact ⟨Tables.collapseDispenserRegistrations_eq hactive candidates t,
      Tables.nodup_insertedKeys hactive candidates txIndex t⟩

namespace Sample

/-- Two spellings of one address: the second is open longer, the first to name an
    oracle is the second. -/
def twoSpellings : List DispenserCreate :=
  [⟨some "BC1Q", some "source", none, 100⟩, ⟨some "bc1q", some "source", some "oracle", 200⟩]

theorem twoSpellings_stands :
    collapseDispenserRegistrations (rules true) 0 (fun _ => some 7) twoSpellings =
      [⟨some "BC1Q", some "source", some "oracle", 200⟩] ∧
    StandsFor (fun _ => some 7) twoSpellings
      (collapseDispenserRegistrations (rules true) 0 (fun _ => some 7) twoSpellings) :=
  ⟨by decide, (collapse_holds_open (show gateActive (rules true).addressIdCollapseActivation 0 = true by decide)
    twoSpellings).1 _⟩

end Sample

end XChainDecoder
