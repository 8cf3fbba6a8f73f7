import XChainDecoder.Ingest.Lifetime

/-! # Tables that differ in dead dispenser rows

    Two decoders ingest the same block, and one of them still stores dispenser
    rows that the other has deleted. As long as these rows carry the mark of an
    earlier block, no statement of the pass reads or writes them: both passes go
    the same way and leave tables that differ in the same rows.

    **Main theorem.** `Draft.ingestTransaction_alongside`. -/

namespace XChainDecoder

/-! ## Section 1: Other dispenser rows -/

namespace Tables

variable {weight : String → String} {t t' : Tables weight} {ds : List DispenserRow}
  {u : List ExtensionUndoRow}

/-- The tables with other rows in the two dispenser tables. -/
def swap (t : Tables weight) (ds : List DispenserRow) (u : List ExtensionUndoRow) :
    Tables weight :=
  { t with dispensers := ds, dispenserExtensionUndo := u }

@[simp] theorem swap_dispensers : (t.swap ds u).dispensers = ds := rfl
@[simp] theorem swap_undo : (t.swap ds u).dispenserExtensionUndo = u := rfl
@[simp] theorem swap_blocks : (t.swap ds u).blocks = t.blocks := rfl
@[simp] theorem swap_transactions : (t.swap ds u).transactions = t.transactions := rfl
@[simp] theorem swap_transactionOutputs :
    (t.swap ds u).transactionOutputs = t.transactionOutputs := rfl
@[simp] theorem swap_indexAddresses : (t.swap ds u).indexAddresses = t.indexAddresses := rfl
@[simp] theorem swap_txIndexes : (t.swap ds u).toChainRows.txIndexes = t.toChainRows.txIndexes := rfl
@[simp] theorem swap_heights : (t.swap ds u).heights = t.heights := rfl
@[simp] theorem swap_swap (ds' : List DispenserRow) (u' : List ExtensionUndoRow) :
    (t.swap ds u).swap ds' u' = t.swap ds' u' := rfl

/-! Interning, transactions and outputs do not look at dispensers. -/

theorem createTransaction_swap (hash : Hash) : (t.swap ds u).createTransaction hash =
    ((t.createTransaction hash).1, (t.createTransaction hash).2.swap ds u) := rfl

theorem createAddress_swap (a : Option String) : (t.swap ds u).createAddress a =
    ((t.createAddress a).1, (t.createAddress a).2.swap ds u) := by
  cases a with
  | none => rfl
  | some a => by_cases h : a = "" <;> simp [createAddress, h, swap]

theorem createOptionalAddress_swap (a : Option String) : (t.swap ds u).createOptionalAddress a =
    ((t.createOptionalAddress a).1, (t.createOptionalAddress a).2.swap ds u) := by
  cases a with
  | none => rfl
  | some a => by_cases h : a = "" <;> simp [createOptionalAddress, h, createAddress_swap]

theorem insertPubkey_swap (id : Nat) (pubkey : String) :
    (t.swap ds u).insertPubkey id pubkey = (t.insertPubkey id pubkey).swap ds u := by
  unfold insertPubkey
  by_cases h : id ∈ t.pubkeys.map PubkeyRow.addressId <;> simp [swap, h]

theorem recordSourcePubkey_swap (id : Nat) (pubkey : Option String) :
    (t.swap ds u).recordSourcePubkey id pubkey = (t.recordSourcePubkey id pubkey).swap ds u := by
  cases pubkey with
  | none => rfl
  | some pubkey =>
    by_cases h : pubkey = "" ∨ id = 1
    · simp [recordSourcePubkey, h]
    · simp [recordSourcePubkey, h, insertPubkey_swap]

theorem exposePubkey_swap (source pubkey : Option String) :
    (t.swap ds u).exposePubkey source pubkey = (t.exposePubkey source pubkey).swap ds u := by
  unfold exposePubkey
  cases source.filter (!·.isEmpty) with
  | none => rfl
  | some source =>
    cases pubkey.filter (!·.isEmpty) with
    | none => rfl
    | some pubkey =>
      cases h : t.indexAddresses.idOf source with
      | none => simp [h]
      | some id => simp [h, insertPubkey_swap]

theorem createAddresses_swap (addresses : List String) :
    (t.swap ds u).createAddresses addresses = (t.createAddresses addresses).swap ds u := by
  induction addresses generalizing t with
  | nil => rfl
  | cons a as ih =>
    have hrest := ih (t := (t.createAddress (some a)).2)
    simp only [createAddresses, List.foldl_cons] at hrest ⊢
    rw [createAddress_swap, hrest]

theorem collapseDispenserRegistrations_swap (rules : Rules) (time : Int)
    (candidates : List DispenserCreate) :
    (t.swap ds u).collapseDispenserRegistrations rules time candidates =
      ((t.collapseDispenserRegistrations rules time candidates).1,
        (t.collapseDispenserRegistrations rules time candidates).2.swap ds u) := by
  unfold collapseDispenserRegistrations
  by_cases h : collapsesById rules time candidates = true
  · simp [h, createAddresses_swap]
  · simp [h]

theorem insertTransaction_swap (tx : NewTransaction) :
    (t.swap ds u).insertTransaction tx = (t.insertTransaction tx).map (·.swap ds u) := by
  unfold insertTransaction
  simp only [createTransaction_swap, createAddress_swap, recordSourcePubkey_swap, swap_txIndexes,
    swap_transactions]
  by_cases h : tx.index ∈ t.txIndexes ∨
      (t.createTransaction tx.hash).1 ∈ t.transactions.map TransactionRow.txHashId
  · rw [if_pos h, if_pos h]
    rfl
  · rw [if_neg h, if_neg h]
    rfl

theorem insertOutputs_swap (txIndex : Int) (os : List Output) :
    insertOutputs txIndex os (t.swap ds u) = (insertOutputs txIndex os t).map (·.swap ds u) := by
  induction os generalizing t with
  | nil => rfl
  | cons o os ih =>
    simp only [insertOutputs, insertOutput, insertTransactionOutput, createAddress_swap,
      swap_transactionOutputs]
    by_cases h : (txIndex, o.vout) ∈ t.transactionOutputs.map (fun r => (r.txIndex, r.vout))
    · rw [if_pos h, if_pos h]
      rfl
    · rw [if_neg h, if_neg h]
      simp only [Option.bind_some]
      rw [← ih]
      rfl

theorem insertBlock_swap (n time : Int) (hash previous : Hash) :
    (t.swap ds u).insertBlock n time hash previous =
      (t.insertBlock n time hash previous).map (·.swap ds u) := by
  unfold insertBlock
  dsimp only
  by_cases h : n ∈ t.heights
  · rw [if_pos (show n ∈ (t.swap ds u).heights from h), if_pos h]
    rfl
  · rw [if_neg (show n ∉ (t.swap ds u).heights from h), if_neg h]
    rfl

theorem blockTimesBelow_swap (span : Nat) (n : Int) :
    (t.swap ds u).blockTimesBelow span n = t.blockTimesBelow span n :=
  blockTimesBelow_congr span (fun _ _ => rfl)

/-! ## Section 2: Dead rows -/

/-- `ds` is the dispenser table of `t` with dead rows in it: those of the keys
    `K`, all marked before block `n`, all of the kind `D`. -/
structure Twin (n : Int) (K : Int × Nat → Bool) (D : DispenserRow → Prop) (t : Tables weight)
    (ds : List DispenserRow) : Prop where
  rows   : t.dispensers = ds.filter (fun d => !K d.key)
  closed : ∀ d ∈ ds, K d.key = true → ∃ m, d.expiredBlockIndex = some m ∧ m < n
  dead   : ∀ d ∈ ds, K d.key = true → D d
  used   : ∀ key, K key = true → key.1 ∈ t.toChainRows.txIndexes

variable {n : Int} {K : Int × Nat → Bool} {D : DispenserRow → Prop}

/-- The rest of the tables may change. -/
theorem Twin.congr (h : Twin n K D t ds) (hrows : t'.dispensers = t.dispensers)
    (htxs : ∀ i ∈ t.toChainRows.txIndexes, i ∈ t'.toChainRows.txIndexes) : Twin n K D t' ds :=
  ⟨hrows ▸ h.rows, h.closed, h.dead, fun key hkey => htxs _ (h.used key hkey)⟩

/-- A statement that rewrites each row, and none that was marked before `n`. -/
theorem Twin.map {f : DispenserRow → DispenserRow} (h : Twin n K D t ds)
    (hkey : ∀ d, (f d).key = d.key)
    (hfix : ∀ d m, d.expiredBlockIndex = some m → m < n → f d = d)
    (hrows : t'.dispensers = t.dispensers.map f)
    (htxs : t'.toChainRows.txIndexes = t.toChainRows.txIndexes) : Twin n K D t' (ds.map f) where
  rows := by
    rw [hrows, h.rows, List.filter_map]
    congr 1
    apply List.filter_congr
    intro d _
    simp [hkey]
  closed := by
    intro d' hd' hdead
    rcases List.mem_map.mp hd' with ⟨d, hd, rfl⟩
    rw [hkey] at hdead
    rcases h.closed d hd hdead with ⟨m, hm, hlt⟩
    rw [hfix d m hm hlt]
    exact ⟨m, hm, hlt⟩
  dead := by
    intro d' hd' hdead
    rcases List.mem_map.mp hd' with ⟨d, hd, rfl⟩
    rw [hkey] at hdead
    rcases h.closed d hd hdead with ⟨m, hm, hlt⟩
    rw [hfix d m hm hlt]
    exact h.dead d hd hdead
  used := by
    rw [htxs]
    exact h.used

/-- A statement that adds a row under a new index. -/
theorem Twin.append {e : DispenserRow} (h : Twin n K D t ds) (hfresh : K e.key = false)
    (hrows : t'.dispensers = t.dispensers ++ [e])
    (htxs : t'.toChainRows.txIndexes = t.toChainRows.txIndexes) : Twin n K D t' (ds ++ [e]) where
  rows := by
    rw [hrows, h.rows, List.filter_append]
    simp [hfresh]
  closed := by
    intro d hd hdead
    rcases List.mem_append.mp hd with hd | hd
    · exact h.closed d hd hdead
    · rw [List.mem_singleton.mp hd, hfresh] at hdead
      simp at hdead
  dead := by
    intro d hd hdead
    rcases List.mem_append.mp hd with hd | hd
    · exact h.dead d hd hdead
    · rw [List.mem_singleton.mp hd, hfresh] at hdead
      simp at hdead
  used := by
    rw [htxs]
    exact h.used

/-- A test that no dead row passes sees the same rows. -/
theorem Twin.filter_eq (h : Twin n K D t ds) {p : DispenserRow → Bool}
    (hp : ∀ d ∈ ds, K d.key = true → p d = false) : ds.filter p = t.dispensers.filter p := by
  rw [h.rows, List.filter_filter]
  apply List.filter_congr
  intro d hd
  cases hK : K d.key with
  | false => simp
  | true => simp [hp d hd hK]

theorem Twin.openOracles (h : Twin n K D t ds) (source : String) :
    (t.swap ds u).openOracles source = t.openOracles source := by
  unfold Tables.openOracles
  simp only [swap_dispensers, swap_indexAddresses]
  rw [h.filter_eq]
  intro d hd hdead
  rcases h.closed d hd hdead with ⟨m, hm, -⟩
  simp [openFor, hm]

theorem Twin.oracleFeeAddresses (h : Twin n K D t ds) (source : Option String)
    (request : OracleRequest) :
    (t.swap ds u).oracleFeeAddresses source request = t.oracleFeeAddresses source request := by
  unfold Tables.oracleFeeAddresses
  simp only [h.openOracles, swap_indexAddresses]

/-- A create is dropped by the one as by the other. -/
theorem Twin.registerDispenser (h : Twin n K D t ds) {txIndex : Int}
    (hfresh : ∀ key, K key = true → key.1 ≠ txIndex) (c : DispenserCreate) :
    ∃ ds', (t.swap ds u).registerDispenser txIndex c = (t.registerDispenser txIndex c).swap ds' u ∧
      Twin n K D (t.registerDispenser txIndex c) ds' := by
  -- the row of a new transaction is none of those left out, so both tables lack it alike
  have hnew : ∀ id, K (txIndex, id) = false := by
    intro id
    cases hK : K (txIndex, id) with
    | false => rfl
    | true => exact absurd rfl (hfresh _ hK)
  have hmem : ∀ id, (txIndex, id) ∈ ds.map (fun d => (d.txIndex, d.addressId)) ↔
      (txIndex, id) ∈ t.dispensers.map (fun d => (d.txIndex, d.addressId)) := by
    intro id
    rw [h.rows]
    constructor
    · intro hin
      rcases List.mem_map.mp hin with ⟨d, hd, hkey⟩
      have hK : K d.key = false := by
        have : d.key = (txIndex, id) := hkey
        rw [this]
        exact hnew id
      exact List.mem_map.mpr ⟨d, List.mem_filter.mpr ⟨hd, by simp [hK]⟩, hkey⟩
    · intro hin
      rcases List.mem_map.mp hin with ⟨d, hd, hkey⟩
      exact List.mem_map.mpr ⟨d, (List.mem_filter.mp hd).1, hkey⟩
  unfold Tables.registerDispenser insertDispenser
  simp only [createAddress_swap, createOptionalAddress_swap, swap_dispensers]
  by_cases htaken : (txIndex, (t.createAddress c.address).1) ∈
      t.dispensers.map (fun d => (d.txIndex, d.addressId))
  · rw [if_pos htaken, if_pos ((hmem _).mpr htaken)]
    exact ⟨ds, rfl, h.congr (by simp) (by simp)⟩
  · rw [if_neg htaken, if_neg (fun hin => htaken ((hmem _).mp hin))]
    refine ⟨ds ++ [_], rfl, h.append (hnew _) rfl ?_⟩
    simp [ChainRows.txIndexes]

theorem Twin.registerDispensers (h : Twin n K D t ds) {txIndex : Int}
    (hfresh : ∀ key, K key = true → key.1 ≠ txIndex) (cs : List DispenserCreate) :
    ∃ ds', cs.foldl (fun t c => t.registerDispenser txIndex c) (t.swap ds u) =
        (cs.foldl (fun t c => t.registerDispenser txIndex c) t).swap ds' u ∧
      Twin n K D (cs.foldl (fun t c => t.registerDispenser txIndex c) t) ds' := by
  induction cs generalizing t ds with
  | nil => exact ⟨ds, rfl, h⟩
  | cons c cs ih =>
    rcases h.registerDispenser (u := u) hfresh c with ⟨ds₁, hfirst, htwin⟩
    rcases ih htwin with ⟨ds', hrest, htwin'⟩
    exact ⟨ds', by rw [List.foldl_cons, hfirst, hrest, List.foldl_cons], htwin'⟩

/-- Edits reach open rows and rows marked by block `n` itself. -/
theorem extendIf_of_marked {id : Option Nat} {e : Int} {d : DispenserRow} {m : Int}
    (hm : d.expiredBlockIndex = some m) (hlt : m < n) : ChainRows.extendIf id e n d = d := by
  have hne : ¬ m = n := by omega
  simp [ChainRows.extendIf, ChainRows.extendable, hm, hne]

theorem Twin.extendEditedDispensers (h : Twin n K D t ds) (edits : List (String × Int)) :
    ∃ ds' u', edits.foldl (fun t edit => t.extendEditedDispenser n edit) (t.swap ds u) =
        (edits.foldl (fun t edit => t.extendEditedDispenser n edit) t).swap ds' u' ∧
      Twin n K D (edits.foldl (fun t edit => t.extendEditedDispenser n edit) t) ds' := by
  induction edits generalizing t ds u with
  | nil => exact ⟨ds, u, rfl, h⟩
  | cons edit edits ih =>
    have htwin : Twin n K D (t.extendEditedDispenser n edit)
        (ds.map (ChainRows.extendIf (t.indexAddresses.idOf edit.1) edit.2 n)) :=
      h.map (fun d => ChainRows.extendIf_key _ _ d) (fun d m hm hlt => extendIf_of_marked hm hlt) rfl rfl
    have hfirst : (t.swap ds u).extendEditedDispenser n edit =
        (t.extendEditedDispenser n edit).swap
          (ds.map (ChainRows.extendIf (t.indexAddresses.idOf edit.1) edit.2 n))
          ((t.swap ds u).extendEditedDispenser n edit).dispenserExtensionUndo := rfl
    rcases ih htwin (u := ((t.swap ds u).extendEditedDispenser n edit).dispenserExtensionUndo)
      with ⟨ds', u', hrest, htwin'⟩
    refine ⟨ds', u', ?_, htwin'⟩
    rw [List.foldl_cons, List.foldl_cons, hfirst]
    exact hrest

/-- Marking reaches open rows only. -/
theorem Twin.deleteOpenDispensers (h : Twin n K D t ds) (minExpiration : Int) :
    ∃ ds', (t.swap ds u).deleteOpenDispensers n minExpiration =
        (t.deleteOpenDispensers n minExpiration).swap ds' u ∧
      Twin n K D (t.deleteOpenDispensers n minExpiration) ds' := by
  refine ⟨ds.map (ChainRows.expireRow n minExpiration), rfl,
    h.map (fun d => ChainRows.expireRow_key _ d) ?_ rfl rfl⟩
  intro d m hm _
  simp [ChainRows.expireRow, hm]

end Tables

/-! ## Section 3: The pass of a block -/

namespace Draft

open Tables

variable {weight : String → String} {rules : Rules} {head : BlockHead} {n : Int}
  {K : Int × Nat → Bool} {D : DispenserRow → Prop} {d d' : Draft weight} {ds : List DispenserRow} {u : List ExtensionUndoRow}

/-- The draft on tables with other dispenser rows. -/
def swap (d : Draft weight) (ds : List DispenserRow) (u : List ExtensionUndoRow) : Draft weight :=
  { d with tables := d.tables.swap ds u }

/-- A pass over `d` goes the same way over its twin. -/
def Alongside (n : Int) (K : Int × Nat → Bool) (D : DispenserRow → Prop) (ds : List DispenserRow)
    (u : List ExtensionUndoRow) (f : Draft weight → Option (Draft weight)) (d : Draft weight) : Prop :=
  ∀ d', f d = some d' → ∃ ds' u', f (d.swap ds u) = some (d'.swap ds' u') ∧
    Twin n K D d'.tables ds'

theorem persistTransaction_alongside {hash : Hash} {r : ParseResult} {stored : StoredRecord}
    (hn : head.blockIndex = n) (h : Twin n K D d.tables ds) :
    Alongside n K D ds u (persistTransaction rules head hash r stored) d := by
  intro d' hd'
  unfold persistTransaction at hd' ⊢
  rcases Option.bind_eq_some_iff.mp hd' with ⟨t₁, hrow, hd'⟩
  rcases Option.bind_eq_some_iff.mp hd' with ⟨t₂, hdispense, hd'⟩
  rcases Option.bind_eq_some_iff.mp hd' with ⟨t₃, hpayment, hd'⟩
  simp only [Option.pure_def, Option.some.injEq] at hd'
  let commands := rules.captureCommands stored.data head.time
  let keyed := registrations rules head r commands t₃
  -- the index of the new row is not that of a dead one
  rcases insertTransaction_dispensers hrow with ⟨hrows₁, hnew⟩
  have hfresh : ∀ key, K key = true → key.1 ≠ d.lastTxIndex := by
    intro key hkey heq
    exact hnew (heq ▸ h.used key hkey)
  rcases changes_insertTransaction (n := n) hn hrow with ⟨h₁, htx₁⟩
  have h₂ := changes_insertOutputs _ htx₁ hdispense
  have h₃ := changes_insertOutputs _ (h₂.mem_txIndexesOf htx₁) hpayment
  have h₄ : Changes n t₃ keyed.2 := changes_collapseDispenserRegistrations head.time _
  have hrows₂ := insertOutputs_dispensers _ hdispense
  have hrows₃ := insertOutputs_dispensers _ hpayment
  have hrows₄ : keyed.2.dispensers = t₃.dispensers :=
    collapseDispenserRegistrations_dispensers rules head.time _ t₃
  have htwin₁ := h.congr hrows₁ (fun i hi => h₁.mem_txIndexes hi)
  have htwin₂ := htwin₁.congr hrows₂ (fun i hi => h₂.mem_txIndexes hi)
  have htwin₃ := htwin₂.congr hrows₃ (fun i hi => h₃.mem_txIndexes hi)
  have htwin₄ := htwin₃.congr hrows₄ (fun i hi => h₄.mem_txIndexes hi)
  rcases htwin₄.registerDispensers (u := u) hfresh keyed.1 with ⟨ds₅, hregister, htwin₅⟩
  rcases htwin₅.extendEditedDispensers (u := u) (dispenserEdits rules commands r.source head.time)
    with ⟨ds', u', hextend, htwin'⟩
  refine ⟨ds', u', ?_, ?_⟩
  · have hpay : payments rules head r commands (t₂.swap ds u) = payments rules head r commands t₂ := by
      simp only [payments, htwin₂.oracleFeeAddresses]
    have hkeyed : registrations rules head r commands (t₃.swap ds u) =
        (keyed.1, keyed.2.swap ds u) := collapseDispenserRegistrations_swap rules head.time _
    rw [← hd']
    show ((d.tables.swap ds u).insertTransaction _).bind _ = _
    rw [insertTransaction_swap]
    show Option.bind ((d.tables.insertTransaction (newTransaction head d.lastTxIndex hash r stored)).map
      (·.swap ds u)) _ = _
    rw [hrow]
    show (insertOutputs d.lastTxIndex r.dispenseOutputs (t₁.swap ds u)).bind _ = _
    rw [insertOutputs_swap, hdispense]
    show (insertOutputs d.lastTxIndex (payments rules head r commands (t₂.swap ds u))
      (t₂.swap ds u)).bind _ = _
    rw [hpay, insertOutputs_swap, hpayment]
    have hrest : (dispenserEdits rules commands r.source head.time).foldl
        (fun t edit => t.extendEditedDispenser head.blockIndex edit)
        ((registrations rules head r commands (t₃.swap ds u)).1.foldl
          (fun t c => t.registerDispenser d.lastTxIndex c)
          (registrations rules head r commands (t₃.swap ds u)).2) =
        ((dispenserEdits rules commands r.source head.time).foldl
          (fun t edit => t.extendEditedDispenser head.blockIndex edit)
          (keyed.1.foldl (fun t c => t.registerDispenser d.lastTxIndex c) keyed.2)).swap ds' u' := by
      rw [hkeyed, hregister, hn]
      exact hextend
    have hregistered : registeredAddresses (registrations rules head r commands (t₃.swap ds u)).1 =
        registeredAddresses keyed.1 := by rw [hkeyed]
    show some (Draft.mk _ d.lastTxIndex (d.openAddresses ++ _)) = some (Draft.mk _ d.lastTxIndex _)
    rw [← hregistered]
    exact congrArg (fun t => some (Draft.mk t d.lastTxIndex _)) hrest
  · rw [← hd', hn]
    exact htwin'

theorem storeResult_alongside {hash : Hash} {r : ParseResult} (hn : head.blockIndex = n)
    (h : Twin n K D d.tables ds) : Alongside n K D ds u (storeResult rules head hash r) d := by
  intro d' hd'
  unfold storeResult at hd' ⊢
  dsimp only at hd' ⊢
  by_cases hcontent : hasStorableContent r = true
  · rw [if_pos hcontent] at hd' ⊢
    by_cases hskip : (buildStoredActionRecord rules r).skip = true
    · rw [if_pos hskip] at hd' ⊢
      simp only [Option.some.injEq] at hd'
      rw [← hd']
      exact ⟨ds, u, rfl, h⟩
    · rw [if_neg hskip] at hd' ⊢
      by_cases hreject : rules.rejectsRow hash r.source r.destination
          (buildStoredActionRecord rules r).data (buildStoredActionRecord rules r).rawData = true
      · simp [hreject] at hd'
      · rw [if_neg hreject] at hd' ⊢
        exact persistTransaction_alongside (d := { d with lastTxIndex := d.lastTxIndex + 1 }) hn h d' hd'
  · rw [if_neg hcontent] at hd' ⊢
    simp only [Option.some.injEq] at hd'
    rw [← hd']
    exact ⟨ds, u, rfl, h⟩

/-- **Main theorem.** A transaction that goes through goes through on the twin,
    and leaves twins. -/
theorem ingestTransaction_alongside {quarantined : Bool} {position : Nat} {tx : RawTransaction}
    (hn : head.blockIndex = n) (h : Twin n K D d.tables ds) :
    Alongside n K D ds u (ingestTransaction rules head quarantined position tx) d := by
  intro d' hd'
  unfold ingestTransaction at hd' ⊢
  by_cases hq : quarantined = true
  · rw [if_pos hq] at hd' ⊢
    simp only [Option.some.injEq] at hd'
    rw [← hd']
    exact ⟨ds, u, rfl, h.congr rfl (fun _ hi => hi)⟩
  · rw [if_neg hq] at hd' ⊢
    cases hid : tx.id with
    | none =>
      simp only [hid, Option.some.injEq] at hd'
      rw [← hd']
      exact ⟨ds, u, rfl, h.congr rfl (fun _ hi => hi)⟩
    | some hash =>
      simp only [hid] at hd'
      -- the parse is given the same capture set
      have hopen : (d.swap ds u).openAddresses = d.openAddresses := rfl
      simp only [hopen]
      cases hparse : rules.parseTransaction tx (· ∈ d.openAddresses) head.blockIndex with
      | nothing =>
        simp only [hparse, Option.some.injEq] at hd'
        rw [← hd']
        exact ⟨ds, u, rfl, h⟩
      | throws error exposed =>
        simp only [hparse, Option.some.injEq] at hd'
        rw [← hd']
        have hexpose := exposePubkey_toChainRows d.tables (exposed.map Prod.fst) (exposed.map Prod.snd)
        refine ⟨ds, u, ?_, h.congr (congrArg ChainRows.dispensers hexpose) ?_⟩
        · simp only [write, swap, exposePubkey_swap]
          rfl
        · intro i hi
          show i ∈ (Tables.exposePubkey _ _ _).toChainRows.txIndexes
          rw [hexpose]
          exact hi
      | result r =>
        simp only [hparse] at hd'
        have hexpose := exposePubkey_toChainRows d.tables r.source r.sourcePubkey
        have htwin : Twin n K D (d.write (Tables.exposePubkey · r.source r.sourcePubkey)).tables ds := by
          refine h.congr (congrArg ChainRows.dispensers hexpose) ?_
          intro i hi
          show i ∈ (Tables.exposePubkey _ _ _).toChainRows.txIndexes
          rw [hexpose]
          exact hi
        rcases storeResult_alongside (u := u) hn htwin d' hd' with ⟨ds', u', hstore, htwin'⟩
        refine ⟨ds', u', ?_, htwin'⟩
        rw [← hstore]
        simp only [write, swap, exposePubkey_swap]

end Draft

end XChainDecoder
