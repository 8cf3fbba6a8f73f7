import XChainDecoder.Ingest.ProtocolTime

/-! # The life of a dispenser row

    What the steps of a forward run do to one dispenser row: it is created open,
    an edit extends it, a block whose protocol time has passed its expiration
    marks it, an edit of that same block may take the mark back, and a purge
    deletes it once it is marked. Nothing shortens an expiration, and while a
    row is open it is captured.

    **Main theorem.** `Forward.never_closes_early`. -/

namespace XChainDecoder

/-! ## Section 1: Extending a row -/

namespace ChainRows

variable {n : Int} {d : DispenserRow}

/-- The source operates the dispenser or created it. -/
def operates (sourceId : Option Nat) (d : DispenserRow) : Bool :=
  sourceId.isSome && (some d.addressId = sourceId || d.sourceAddressId = sourceId)

/-- The extends of a list of edits, as a function of the row. -/
def extendAll (n : Int) (edits : List (Option Nat × Int)) (d : DispenserRow) : DispenserRow :=
  edits.foldl (fun d edit => extendIf edit.1 edit.2 n d) d

@[simp] theorem extendAll_nil : extendAll n [] = id := rfl

@[simp] theorem extendAll_cons (edit : Option Nat × Int) (edits : List (Option Nat × Int))
    (d : DispenserRow) :
    extendAll n (edit :: edits) d = extendAll n edits (extendIf edit.1 edit.2 n d) := rfl

/-- What the edits of block `n` make of a row: nothing, a later expiration of an
    open row, or the mark of that very block taken back. -/
inductive Extended (n : Int) (edits : List (Option Nat × Int)) (d : DispenserRow) :
    DispenserRow → Prop where
  | kept : Extended n edits d d
  | extended {expiration : Int} (hopen : d.expiredBlockIndex = none)
      (hle : d.expiration ≤ expiration) : Extended n edits d { d with expiration }
  | reopened {expiration : Int} (hmark : d.expiredBlockIndex = some n)
      (hle : d.expiration ≤ expiration) (hedit : ∃ edit ∈ edits, operates edit.1 d = true) :
      Extended n edits d { d with expiration, expiredBlockIndex := none }

theorem extended_extendIf (edit : Option Nat × Int) (edits : List (Option Nat × Int)) :
    Extended n (edit :: edits) d (extendIf edit.1 edit.2 n d) := by
  unfold extendIf
  by_cases hext : extendable edit.1 n d = true
  · rw [if_pos hext]
    simp only [extendable, Bool.and_eq_true, Bool.or_eq_true, decide_eq_true_eq] at hext
    rcases hext with ⟨hsource, hopen | hmark⟩
    · have hrow : extendRow edit.2 n d = { d with expiration := max d.expiration edit.2 } := by
        simp [extendRow, hopen]
      rw [hrow]
      exact .extended hopen (le_max_left _ _)
    · have hrow : extendRow edit.2 n d =
          { d with expiration := max d.expiration edit.2, expiredBlockIndex := none } := by
        simp [extendRow, hmark]
      rw [hrow]
      apply Extended.reopened hmark (le_max_left _ _)
      refine ⟨edit, List.mem_cons_self, ?_⟩
      simp only [operates, Bool.and_eq_true, Bool.or_eq_true, decide_eq_true_eq]
      exact hsource
  · rw [if_neg hext]
    exact .kept

theorem Extended.trans {edits : List (Option Nat × Int)} {d' d'' : DispenserRow}
    (h : Extended n edits d d') (h' : Extended n edits d' d'') : Extended n edits d d'' := by
  cases h with
  | kept => exact h'
  | extended hopen hle =>
    cases h' with
    | kept => exact .extended hopen hle
    | extended hopen' hle' => exact .extended hopen (hle.trans hle')
    | reopened hmark' hle' hedit' => simp [hopen] at hmark'
  | reopened hmark hle hedit =>
    cases h' with
    | kept => exact .reopened hmark hle hedit
    | extended hopen' hle' => exact .reopened hmark (hle.trans hle') hedit
    | reopened hmark' hle' hedit' => simp at hmark'

theorem Extended.cons {edits : List (Option Nat × Int)} {d' : DispenserRow}
    (edit : Option Nat × Int) (h : Extended n edits d d') : Extended n (edit :: edits) d d' := by
  cases h with
  | kept => exact .kept
  | extended hopen hle => exact .extended hopen hle
  | reopened hmark hle hedit =>
    rcases hedit with ⟨e, he, hoperates⟩
    exact .reopened hmark hle ⟨e, List.mem_cons_of_mem _ he, hoperates⟩

theorem extended_extendAll (edits : List (Option Nat × Int)) (d : DispenserRow) :
    Extended n edits d (extendAll n edits d) := by
  induction edits generalizing d with
  | nil => exact .kept
  | cons edit edits ih => exact (extended_extendIf edit edits).trans ((ih _).cons edit)

theorem Extended.key {edits : List (Option Nat × Int)} {d' : DispenserRow}
    (h : Extended n edits d d') : d'.key = d.key := by
  cases h <;> rfl

end ChainRows

/-! ## Section 2: The rows of one transaction -/

namespace Tables

variable {weight : String → String} {t t' t'' : Tables weight}

/-- `t'` is `t` with open dispenser rows added, none of them under an index of
    `used`. -/
structure Registers (used : List Int) (t t' : Tables weight) : Prop where
  grows : Grows t t'
  rows  : ∃ new, t'.dispensers = t.dispensers ++ new ∧ ∀ e ∈ new,
    e.expiredBlockIndex = none ∧ e.txIndex ∉ used ∧
      ∃ address, t'.indexAddresses.valueOf e.addressId = some address

theorem Registers.ofGrows {used : List Int} (hgrows : Grows t t')
    (hrows : t'.dispensers = t.dispensers) : Registers used t t' :=
  ⟨hgrows, [], by simp [hrows], by simp⟩

theorem Registers.trans {used : List Int} (h : Registers used t t') (h' : Registers used t' t'') :
    Registers used t t'' := by
  rcases h.rows with ⟨new, hnew, hall⟩
  rcases h'.rows with ⟨new', hnew', hall'⟩
  refine ⟨h.grows.trans h'.grows, new ++ new', by simp [hnew', hnew], ?_⟩
  intro e he
  rcases List.mem_append.mp he with he | he
  · rcases hall e he with ⟨hopen, hfresh, address, haddress⟩
    exact ⟨hopen, hfresh, address, Index.valueOf_of_prefix h'.grows.addresses haddress⟩
  · exact hall' e he

theorem insertTransaction_dispensers {tx : NewTransaction} (h : t.insertTransaction tx = some t') :
    t'.dispensers = t.dispensers ∧ tx.index ∉ t.toChainRows.txIndexes := by
  unfold insertTransaction at h
  dsimp only at h
  by_cases htaken : tx.index ∈ t.txIndexes ∨
      (t.createTransaction tx.hash).1 ∈ t.transactions.map TransactionRow.txHashId
  · rw [if_pos htaken] at h
    simp at h
  · rw [if_neg htaken, Option.some.injEq] at h
    rw [← h]
    simp only [not_or] at htaken
    exact ⟨by simp, htaken.1⟩

theorem insertOutputs_dispensers {txIndex : Int} (os : List Output)
    (h : insertOutputs txIndex os t = some t') : t'.dispensers = t.dispensers := by
  induction os generalizing t with
  | nil =>
    simp only [insertOutputs, Option.some.injEq] at h
    rw [h]
  | cons o os ih =>
    rcases Option.bind_eq_some_iff.mp h with ⟨t₁, hfirst, hrest⟩
    rw [ih hrest]
    unfold insertOutput insertTransactionOutput at hfirst
    dsimp only at hfirst
    by_cases htaken : (txIndex, o.vout) ∈ t.transactionOutputs.map (fun r => (r.txIndex, r.vout))
    · rw [if_pos htaken] at hfirst
      simp at hfirst
    · rw [if_neg htaken, Option.some.injEq] at hfirst
      simp [← hfirst]

/-- The id of an address reads back, a blank one as the reserved row. -/
theorem valueOf_createAddress (hblank : t.indexAddresses.valueOf 1 = some "") (a : Option String) :
    ∃ address, (t.createAddress a).2.indexAddresses.valueOf (t.createAddress a).1 = some address := by
  cases a with
  | none => exact ⟨"", by simpa [createAddress] using hblank⟩
  | some a =>
    by_cases ha : a = ""
    · exact ⟨"", by simpa [createAddress, ha] using hblank⟩
    · rcases Index.valueOf_create 0 t.indexAddresses a with ⟨v, hv, -⟩
      exact ⟨v, by simpa [createAddress, ha] using hv⟩

theorem registers_insertDispenser {used : List Int} {n : NewDispenser} (hn : n.txIndex ∉ used)
    (hblank : t.indexAddresses.valueOf 1 = some "") : Registers used t (t.insertDispenser n) := by
  have haddress := createAddress_grows t n.address
  have hrest := (createOptionalAddress_grows (t.createAddress n.address).2 n.oracleAddress).trans
    (createOptionalAddress_grows _ (if n.sourceAddress = n.address then none else n.sourceAddress))
  rcases valueOf_createAddress hblank n.address with ⟨address, hvalue⟩
  unfold insertDispenser
  dsimp only
  split
  · exact .ofGrows (haddress.trans hrest) (by simp)
  · have hgrows := haddress.trans hrest
    refine ⟨⟨hgrows.addresses, hgrows.transactions, hgrows.pubkeys, hgrows.events⟩, [_], rfl, ?_⟩
    intro e he
    rw [List.mem_singleton.mp he]
    exact ⟨rfl, hn, address, Index.valueOf_of_prefix hrest.addresses hvalue⟩

theorem registers_registerDispensers {used : List Int} {txIndex : Int} (hn : txIndex ∉ used)
    (cs : List DispenserCreate) (hblank : t.indexAddresses.valueOf 1 = some "") :
    Registers used t (cs.foldl (fun t c => t.registerDispenser txIndex c) t) := by
  induction cs generalizing t with
  | nil => exact .ofGrows (Grows.refl t) rfl
  | cons c cs ih =>
    have hfirst : Registers used t (t.registerDispenser txIndex c) :=
      registers_insertDispenser hn hblank
    exact hfirst.trans (ih (Index.valueOf_of_prefix hfirst.grows.addresses hblank))

theorem collapseDispenserRegistrations_dispensers (rules : Rules) (time : Int)
    (candidates : List DispenserCreate) (t : Tables weight) :
    (t.collapseDispenserRegistrations rules time candidates).2.dispensers = t.dispensers := by
  have hcreate : ∀ (addresses : List String) (t : Tables weight),
      (t.createAddresses addresses).dispensers = t.dispensers := by
    intro addresses
    induction addresses with
    | nil => simp [createAddresses]
    | cons a as ih =>
      intro t
      have hrest := ih (t.createAddress (some a)).2
      simp only [createAddress_toChainRows] at hrest
      exact hrest
  unfold collapseDispenserRegistrations
  split
  · exact hcreate _ t
  · rfl

/-- Edits, by the ids of their sources. -/
def editIds (t : Tables weight) (edits : List (String × Int)) : List (Option Nat × Int) :=
  edits.map (fun edit => (t.indexAddresses.idOf edit.1, edit.2))

/-- The edits of a transaction, one after the other, rewrite each row on its own. -/
theorem extendEditedDispensers_dispensers (n : Int) (edits : List (String × Int))
    (t : Tables weight) :
    (edits.foldl (fun t edit => t.extendEditedDispenser n edit) t).dispensers =
        t.dispensers.map (ChainRows.extendAll n (t.editIds edits)) ∧
      (edits.foldl (fun t edit => t.extendEditedDispenser n edit) t).indexAddresses =
        t.indexAddresses := by
  induction edits generalizing t with
  | nil => simp [editIds]
  | cons edit edits ih =>
    rcases ih (t.extendEditedDispenser n edit) with ⟨hrows, hindex⟩
    have hkeep : (t.extendEditedDispenser n edit).indexAddresses = t.indexAddresses := rfl
    have hfirst : (t.extendEditedDispenser n edit).dispensers =
        t.dispensers.map (ChainRows.extendIf (t.indexAddresses.idOf edit.1) edit.2 n) := rfl
    constructor
    · rw [List.foldl_cons, hrows, hfirst, List.map_map]
      simp only [editIds, hkeep, List.map_cons]
      rfl
    · rw [List.foldl_cons, hindex, hkeep]

end Tables

/-! ## Section 3: The edits of a transaction -/

namespace Draft

open Tables ChainRows

variable {weight : String → String} {rules : Rules} {head : BlockHead} {d d' : Draft weight}

/-- Opening a block: its row, the expiry of a network that expires at the start,
    and the capture set as it stands then. -/
theorem openBlock_cases {n lastTxIndex : Int} {hash : Hash} {block : RawBlock}
    {t : Tables weight} (h : openBlock rules n hash block t lastTxIndex = some d) :
    ∃ row : BlockRow, row.blockIndex = n ∧ row.blockTime = block.timestamp ∧
      n ∉ t.toChainRows.heights ∧ d.tables.indexAddresses = t.indexAddresses ∧
      d.tables.toChainRows =
        (if gateActive rules.expiryRealignActivation (timesOf rules n block t).protocolBlockTime
          then t.toChainRows.addBlock row
          else (t.toChainRows.addBlock row).deleteOpenDispensers n
            (timesOf rules n block t).protocolBlockTime) ∧
      d.openAddresses = d.tables.getAllOpenDispenserAddresses
        (cancelGraceFloor rules (timesOf rules n block t).protocolBlockTime
          (timesOf rules n block t).parentProtocolTime) := by
  rcases Option.bind_eq_some_iff.mp h with ⟨t₁, hinsert, h⟩
  simp only [Option.pure_def, Option.some.injEq] at h
  unfold Tables.insertBlock at hinsert
  dsimp only at hinsert
  by_cases htaken : n ∈ t.heights
  · simp [htaken] at hinsert
  · rw [if_neg htaken, Option.some.injEq] at hinsert
    refine ⟨⟨n, block.timestamp, (t.createTransaction hash).1,
      ((t.createTransaction hash).2.createTransaction block.prevHash).1⟩, rfl, rfl, htaken, ?_, ?_, ?_⟩
    · rw [← h, ← hinsert]
      dsimp only
      split <;> rfl
    · rw [← h, ← hinsert]
      dsimp only
      split <;> rfl
    · rw [← h]

/-- The edits a transaction carries out: those of the commands it is stored
    with. -/
def editsOf (rules : Rules) (head : BlockHead) (quarantined : Bool) (tx : RawTransaction)
    (openAddresses : List String) : List (String × Int) :=
  if quarantined then []
  else
    match tx.id with
    | none   => []
    | some _ =>
        match rules.parseTransaction tx (· ∈ openAddresses) head.blockIndex with
        | .nothing    => []
        | .throws _ _ => []
        | .result r   =>
            if hasStorableContent r && !(buildStoredActionRecord rules r).skip then
              dispenserEdits rules
                (rules.captureCommands (buildStoredActionRecord rules r).data head.time)
                r.source head.time
            else []

/-- What one transaction makes of the dispenser rows and of the capture set. -/
structure Rewrites (n : Int) (edits : List (String × Int)) (d d' : Draft weight) : Prop where
  grows   : Grows d.tables d'.tables
  capture : d.openAddresses <+: d'.openAddresses
  rows    : ∃ new, d'.tables.dispensers =
      (d.tables.dispensers ++ new).map (extendAll n (d'.tables.editIds edits)) ∧
    ∀ e ∈ new, e.expiredBlockIndex = none ∧ e.txIndex ∉ d.tables.toChainRows.txIndexes ∧
      ∃ address, d'.tables.indexAddresses.valueOf e.addressId = some address

theorem Rewrites.ofGrows {n : Int} (hgrows : Grows d.tables d'.tables)
    (hcapture : d.openAddresses <+: d'.openAddresses)
    (hrows : d'.tables.dispensers = d.tables.dispensers) : Rewrites n [] d d' where
  grows   := hgrows
  capture := hcapture
  rows    := by
    refine ⟨[], ?_, by simp⟩
    simp [editIds, hrows]

theorem rewrites_persistTransaction {hash : Hash} {r : ParseResult} {stored : StoredRecord}
    (hblank : d.tables.indexAddresses.valueOf 1 = some "")
    (h : d.persistTransaction rules head hash r stored = some d') :
    Rewrites head.blockIndex (dispenserEdits rules (rules.captureCommands stored.data head.time)
      r.source head.time) d d' := by
  have hchanges := changes_persistTransaction (n := head.blockIndex) rfl h
  unfold persistTransaction at h
  rcases Option.bind_eq_some_iff.mp h with ⟨t₁, hrow, h⟩
  rcases Option.bind_eq_some_iff.mp h with ⟨t₂, hdispense, h⟩
  rcases Option.bind_eq_some_iff.mp h with ⟨t₃, hpayment, h⟩
  simp only [Option.pure_def, Option.some.injEq] at h
  rcases insertTransaction_dispensers hrow with ⟨hrows₁, hfresh⟩
  have hrows₂ := insertOutputs_dispensers _ hdispense
  have hrows₃ := insertOutputs_dispensers _ hpayment
  let commands := rules.captureCommands stored.data head.time
  let keyed := registrations rules head r commands t₃
  let registered := keyed.1.foldl (fun t c => t.registerDispenser d.lastTxIndex c) keyed.2
  -- the registrations are keyed on tables that have only grown
  rcases changes_insertTransaction (n := head.blockIndex) rfl hrow with ⟨h₁, htx₁⟩
  have h₂ := changes_insertOutputs _ htx₁ hdispense
  have h₃ := changes_insertOutputs _ (h₂.mem_txIndexesOf htx₁) hpayment
  have h₄ : Changes head.blockIndex t₃ keyed.2 := changes_collapseDispenserRegistrations head.time _
  have hkeyed : keyed.2.dispensers = d.tables.dispensers := by
    rw [← hrows₁, ← hrows₂, ← hrows₃]
    exact collapseDispenserRegistrations_dispensers rules head.time _ t₃
  have hgrows := h₁.grows.trans (h₂.grows.trans (h₃.grows.trans h₄.grows))
  have hregister : Registers d.tables.toChainRows.txIndexes keyed.2 registered :=
    registers_registerDispensers hfresh keyed.1 (Index.valueOf_of_prefix hgrows.addresses hblank)
  rcases hregister.rows with ⟨new, hnew, hall⟩
  rw [hkeyed] at hnew
  rcases extendEditedDispensers_dispensers head.blockIndex
    (dispenserEdits rules commands r.source head.time) registered with ⟨hextend, hindex⟩
  refine ⟨hchanges.grows, ?_, new, ?_, ?_⟩
  · rw [← h]
    exact List.prefix_append _ _
  · rw [← h]
    rw [hnew] at hextend
    rw [editIds, ← hindex] at hextend
    exact hextend
  · intro e he
    rcases hall e he with ⟨hopen, hfresh', address, haddress⟩
    rw [← hindex] at haddress
    rw [← h]
    exact ⟨hopen, hfresh', address, haddress⟩

theorem rewrites_storeResult {hash : Hash} {r : ParseResult}
    (hblank : d.tables.indexAddresses.valueOf 1 = some "")
    (h : d.storeResult rules head hash r = some d') :
    Rewrites head.blockIndex
      (if hasStorableContent r && !(buildStoredActionRecord rules r).skip then
        dispenserEdits rules (rules.captureCommands (buildStoredActionRecord rules r).data head.time)
          r.source head.time
      else []) d d' := by
  unfold storeResult at h
  dsimp only at h
  by_cases hcontent : hasStorableContent r = true
  · rw [if_pos hcontent] at h
    by_cases hskip : (buildStoredActionRecord rules r).skip = true
    · rw [if_pos hskip, Option.some.injEq] at h
      rw [← h, hcontent, hskip]
      exact .ofGrows (Grows.refl _) List.prefix_rfl rfl
    · rw [if_neg hskip] at h
      by_cases hreject : rules.rejectsRow hash r.source r.destination
          (buildStoredActionRecord rules r).data (buildStoredActionRecord rules r).rawData = true
      · simp [hreject] at h
      · rw [if_neg hreject] at h
        have hnoskip : (buildStoredActionRecord rules r).skip = false := by simpa using hskip
        have hpersist := rewrites_persistTransaction
          (d := { d with lastTxIndex := d.lastTxIndex + 1 }) hblank h
        rw [hcontent, hnoskip]
        exact ⟨hpersist.grows, hpersist.capture, hpersist.rows⟩
  · rw [if_neg hcontent, Option.some.injEq] at h
    have hno : hasStorableContent r = false := by simpa using hcontent
    rw [← h, hno]
    exact .ofGrows (Grows.refl _) List.prefix_rfl rfl

/-- A write of the lookup tables touches no dispenser. -/
theorem Rewrites.afterWrite {n : Int} {edits : List (String × Int)}
    {f : Tables weight → Tables weight} (h : Rewrites n edits (d.write f) d')
    (hgrows : Grows d.tables (f d.tables))
    (hrows : (f d.tables).toChainRows = d.tables.toChainRows) : Rewrites n edits d d' where
  grows   := hgrows.trans h.grows
  capture := h.capture
  rows    := by
    rw [← hrows]
    exact h.rows

theorem exposePubkey_toChainRows (t : Tables weight) (source pubkey : Option String) :
    (t.exposePubkey source pubkey).toChainRows = t.toChainRows := by
  unfold exposePubkey
  split
  · split
    · rfl
    · simp
  · rfl

theorem rewrites_ingestTransaction {quarantined : Bool} {position : Nat} {tx : RawTransaction}
    (hblank : d.tables.indexAddresses.valueOf 1 = some "")
    (h : d.ingestTransaction rules head quarantined position tx = some d') :
    Rewrites head.blockIndex (editsOf rules head quarantined tx d.openAddresses) d d' := by
  have hgrows := (changes_ingestTransaction (n := head.blockIndex) rfl h).grows
  unfold ingestTransaction at h
  unfold editsOf
  by_cases hq : quarantined = true
  · rw [if_pos hq, Option.some.injEq] at h
    rw [if_pos hq]
    rw [← h] at hgrows ⊢
    exact .ofGrows hgrows List.prefix_rfl rfl
  · rw [if_neg hq] at h
    rw [if_neg hq]
    cases hid : tx.id with
    | none =>
      simp only [hid, Option.some.injEq] at h
      rw [← h] at hgrows ⊢
      exact .ofGrows hgrows List.prefix_rfl rfl
    | some hash =>
      simp only [hid] at h
      cases hparse : rules.parseTransaction tx (· ∈ d.openAddresses) head.blockIndex with
      | nothing =>
        simp only [hparse, Option.some.injEq] at h
        rw [← h]
        exact .ofGrows (Grows.refl _) List.prefix_rfl rfl
      | throws error exposed =>
        simp only [hparse, Option.some.injEq] at h
        rw [← h] at hgrows ⊢
        refine .ofGrows hgrows List.prefix_rfl ?_
        show (Tables.exposePubkey _ _ _).dispensers = _
        rw [exposePubkey_toChainRows]
      | result r =>
        simp only [hparse] at h
        have hexpose := changes_exposePubkey (n := head.blockIndex) (t := d.tables) r.source
          r.sourcePubkey
        have hstore := rewrites_storeResult
          (d := d.write (Tables.exposePubkey · r.source r.sourcePubkey))
          (Index.valueOf_of_prefix hexpose.grows.addresses hblank) h
        exact hstore.afterWrite hexpose.grows (exposePubkey_toChainRows _ _ _)

end Draft

/-! ## Section 4: The rows of one step -/

namespace Forward

open Tables ChainRows

variable {cfg : Config} {rules : Rules} {a : Action} {as bs : List Action}
  {s s' s'' : Forward cfg.weight}

/-- What a step from `s` to `s'` may make of one dispenser row. -/
inductive RowStep (rules : Rules) (s s' : Forward cfg.weight) (a : Action) (d : DispenserRow) :
    DispenserRow → Prop where
  | kept : RowStep rules s s' a d d
  | extended {expiration : Int} (hopen : d.expiredBlockIndex = none)
      (hle : d.expiration ≤ expiration) : RowStep rules s s' a d { d with expiration }
  /-- the block under way marks it, past its expiration -/
  | expired {times : BlockTimeContext} (hopen : d.expiredBlockIndex = none)
      (htimes : s'.timesAt cfg (s'.nextBlockHeight cfg - 1) = some times)
      (hlt : d.expiration < times.protocolBlockTime) :
      RowStep rules s s' a d { d with expiredBlockIndex := some (s'.nextBlockHeight cfg - 1) }
  /-- an edit of a transaction of the block that marked it -/
  | reopened {b : CurrentBlock cfg.weight} {tx : RawTransaction} {edit : String × Int}
      {expiration : Int} (haction : a = .ingestTransaction) (hcurrent : s.current = some b)
      (htx : b.block.transactions[b.position]? = some tx)
      (hmark : d.expiredBlockIndex = some b.head.blockIndex) (hle : d.expiration ≤ expiration)
      (hedit : edit ∈ Draft.editsOf rules b.head (b.quarantined b.position) tx s.draft.openAddresses)
      (hsource : operates (s'.draft.tables.indexAddresses.idOf edit.1) d = true) :
      RowStep rules s s' a d { d with expiration, expiredBlockIndex := none }

theorem RowStep.key {d d' : DispenserRow} (h : RowStep rules s s' a d d') : d'.key = d.key := by
  cases h <;> rfl

theorem RowStep.expiration_le {d d' : DispenserRow} (h : RowStep rules s s' a d d') :
    d.expiration ≤ d'.expiration := by
  cases h with
  | kept => exact le_rfl
  | extended hopen hle => exact hle
  | expired hopen htimes hlt => exact le_rfl
  | reopened haction hcurrent htx hmark hle hedit hsource => exact hle

/-- A row of the next state comes from a row of this one, or is new. -/
structure RowsFrom (rules : Rules) (s s' : Forward cfg.weight) (a : Action) : Prop where
  grows : Grows s.draft.tables s'.draft.tables
  /-- a row is deleted by a purge, and only once it is marked -/
  kept : ∀ d ∈ s.draft.tables.dispensers, d.expiredBlockIndex = none ∨ a ≠ .purgeDispensers →
    ∃ d' ∈ s'.draft.tables.dispensers, RowStep rules s s' a d d'
  origin : ∀ d' ∈ s'.draft.tables.dispensers,
    (∃ d ∈ s.draft.tables.dispensers, RowStep rules s s' a d d') ∨
    (d'.expiredBlockIndex = none ∧ d'.txIndex ∉ s.draft.tables.toChainRows.txIndexes ∧
      ∃ address, s'.draft.tables.indexAddresses.valueOf d'.addressId = some address)

/-- The step rewrites each row by `f`, behind rows it adds. -/
theorem RowsFrom.ofMap {f : DispenserRow → DispenserRow} {l : List DispenserRow}
    (hgrows : Grows s.draft.tables s'.draft.tables)
    (hrows : s'.draft.tables.dispensers = (s.draft.tables.dispensers ++ l).map f)
    (hf : ∀ d, RowStep rules s s' a d (f d))
    (hnew : ∀ d ∈ l, (f d).expiredBlockIndex = none ∧
      (f d).txIndex ∉ s.draft.tables.toChainRows.txIndexes ∧
      ∃ address, s'.draft.tables.indexAddresses.valueOf (f d).addressId = some address) :
    RowsFrom rules s s' a where
  grows  := hgrows
  kept   := by
    intro d hd _
    refine ⟨f d, ?_, hf d⟩
    rw [hrows]
    exact List.mem_map_of_mem (List.mem_append_left _ hd)
  origin := by
    intro d' hd'
    rw [hrows] at hd'
    rcases List.mem_map.mp hd' with ⟨d, hd, rfl⟩
    rcases List.mem_append.mp hd with hd | hd
    · exact .inl ⟨d, hd, hf d⟩
    · exact .inr (hnew d hd)

/-- The step leaves the rows alone. -/
theorem RowsFrom.ofEq (hgrows : Grows s.draft.tables s'.draft.tables)
    (hrows : s'.draft.tables.dispensers = s.draft.tables.dispensers) : RowsFrom rules s s' a where
  grows  := hgrows
  kept   := fun d hd _ => ⟨d, hrows ▸ hd, .kept⟩
  origin := fun d' hd' => .inl ⟨d', hrows ▸ hd', .kept⟩

/-- Marking a row is one of the ways a step rewrites it. -/
theorem rowStep_expireRow {times : BlockTimeContext}
    (htimes : s'.timesAt cfg (s'.nextBlockHeight cfg - 1) = some times) (d : DispenserRow) :
    RowStep rules s s' a d
      (expireRow (s'.nextBlockHeight cfg - 1) times.protocolBlockTime d) := by
  unfold expireRow
  by_cases hdue : d.expiration < times.protocolBlockTime ∧ d.expiredBlockIndex = none
  · rw [if_pos hdue]
    exact .expired hdue.2 htimes hdue.1
  · rw [if_neg hdue]
    exact .kept

/-- The block under way is the last one opened, under the protocol time it
    resolved. -/
structure UnderWay (cfg : Config) (s : Forward cfg.weight) (b : CurrentBlock cfg.weight) : Prop where
  height : b.head.blockIndex = s.nextBlockHeight cfg - 1
  stored : b.head.blockIndex ∈ s.draft.tables.toChainRows.heights
  times  : ∃ times, s.timesAt cfg b.head.blockIndex = some times ∧
    b.head.time = times.protocolBlockTime

theorem Step.rowsFrom (h : Step rules s a s')
    (hblank : s.draft.tables.indexAddresses.valueOf 1 = some "")
    (hcurrent : ∀ b, s.current = some b → UnderWay cfg s b) : RowsFrom rules s s' a := by
  cases h with
  | @openBlock quarantined hash block lastTxIndex d hnone hopen =>
    rcases Draft.insertBlock_of_openBlock hopen with ⟨t₁, hinsert, hchanges⟩
    have hgrows := (commits_insertBlock _ _ _ hinsert).grows.trans hchanges.grows
    rcases Draft.openBlock_cases hopen with ⟨row, -, -, -, -, hrows, -⟩
    have hdispensers := congrArg ChainRows.dispensers hrows
    have hnext : (s.opened rules quarantined hash block d).nextBlockHeight cfg - 1 =
        s.nextBlockHeight cfg := by
      simp [nextBlockHeight, opened]
      omega
    have htimes : (s.opened rules quarantined hash block d).timesAt cfg
        ((s.opened rules quarantined hash block d).nextBlockHeight cfg - 1) =
        some (Draft.timesOf rules (s.nextBlockHeight cfg) block s.draft.tables) := by
      rw [hnext, timesAt_append rfl, if_pos rfl]
    by_cases hgate : gateActive rules.expiryRealignActivation
        (Draft.timesOf rules (s.nextBlockHeight cfg) block s.draft.tables).protocolBlockTime = true
    · -- nothing expires before the transactions of the block
      rw [if_pos hgate] at hdispensers
      exact .ofEq hgrows hdispensers
    · rw [if_neg hgate] at hdispensers
      apply RowsFrom.ofMap (l := []) hgrows
      · rw [List.append_nil]
        exact hdispensers
      · intro d'
        have hexpire : RowStep rules s (s.opened rules quarantined hash block d)
            (.openBlock quarantined hash block lastTxIndex) d' _ := rowStep_expireRow htimes d'
        rw [hnext] at hexpire
        exact hexpire
      · simp
  | @ingestTransaction b tx d hsome htx hingest =>
    have hrewrites := Draft.rewrites_ingestTransaction hblank hingest
    rcases hrewrites.rows with ⟨new, hrows, hnew⟩
    apply RowsFrom.ofMap hrewrites.grows hrows
    · intro d'
      have hext := extended_extendAll (n := b.head.blockIndex) (d.tables.editIds
        (Draft.editsOf rules b.head (b.quarantined b.position) tx s.draft.openAddresses)) d'
      generalize extendAll b.head.blockIndex _ d' = d'' at hext
      cases hext with
      | kept => exact .kept
      | extended hopen hle => exact .extended hopen hle
      | reopened hmark hle hedit =>
        rcases hedit with ⟨edit, hedit, hsource⟩
        rcases List.mem_map.mp hedit with ⟨e, he, rfl⟩
        exact .reopened rfl hsome htx hmark hle he hsource
    · intro e he
      rcases hnew e he with ⟨hopen, hfresh, haddress⟩
      -- a row the transaction itself created is open, whatever its edits do
      have hext := extended_extendAll (n := b.head.blockIndex) (d.tables.editIds
        (Draft.editsOf rules b.head (b.quarantined b.position) tx s.draft.openAddresses)) e
      generalize extendAll b.head.blockIndex _ e = e' at hext
      cases hext with
      | kept => exact ⟨hopen, hfresh, haddress⟩
      | extended hopen' hle => exact ⟨hopen, hfresh, haddress⟩
      | reopened hmark hle hedit => exact ⟨rfl, hfresh, haddress⟩
  | @closeBlock b hsome hall =>
    have hway := hcurrent b hsome
    rcases hway.times with ⟨times, htimes, htime⟩
    rw [hway.height] at htimes
    by_cases hgate : gateActive rules.expiryRealignActivation b.head.time = true
    · have hrows : (s.closed rules b).draft.tables.dispensers =
          s.draft.tables.dispensers.map (expireRow (s.nextBlockHeight cfg - 1)
            times.protocolBlockTime) := by
        rw [← hway.height, ← htime]
        simp [closed, Draft.closeBlock, hgate, Draft.write, Tables.deleteOpenDispensers,
          ChainRows.deleteOpenDispensers]
      have hgrows : Grows s.draft.tables (s.closed rules b).draft.tables := by
        simp only [closed, Draft.closeBlock, hgate, if_true]
        exact ⟨List.prefix_rfl, List.prefix_rfl, List.prefix_rfl, List.suffix_rfl⟩
      apply RowsFrom.ofMap (l := []) hgrows
      · rw [List.append_nil]
        exact hrows
      · exact @rowStep_expireRow _ _ _ _ (s.closed rules b) _ htimes
      · simp
    · have htables : (s.closed rules b).draft.tables = s.draft.tables := by
        simp [closed, Draft.closeBlock, hgate]
      apply RowsFrom.ofEq
      · rw [htables]
        exact Grows.refl _
      · rw [htables]
  | purgeDispensers hnone hsafe =>
    refine ⟨⟨List.prefix_rfl, List.prefix_rfl, List.prefix_rfl, List.suffix_rfl⟩, ?_, ?_⟩
    · intro d hd hopen
      rcases hopen with hopen | hother
      · refine ⟨d, List.mem_filter.mpr ⟨hd, ?_⟩, .kept⟩
        simp [purgeable, hopen]
      · simp at hother
    · intro d hd
      exact .inl ⟨d, (List.mem_filter.mp hd).1, .kept⟩
  | purgeUndo hnone hsafe =>
    apply RowsFrom.ofEq
    · exact ⟨List.prefix_rfl, List.prefix_rfl, List.prefix_rfl, List.suffix_rfl⟩
    · rfl

/-! ## Section 5: What holds in every state -/

/-- What a block resolved stays on record. -/
theorem Step.timesAt (h : Step rules s a s') {n : Int} {times : BlockTimeContext}
    (htimes : s.timesAt cfg n = some times) : s'.timesAt cfg n = some times := by
  rcases h.blocks with ⟨hresolved, -⟩ | ⟨times', row, hresolved, -⟩
  · rw [timesAt_congr hresolved]
    exact htimes
  · have hne : n ≠ s.nextBlockHeight cfg := by
      intro hn
      rw [hn] at htimes
      simp [Forward.timesAt, nextBlockHeight] at htimes
    rw [timesAt_append hresolved, if_neg hne]
    exact htimes

/-- Every open row is captured, with or without a grace floor. -/
theorem mem_getAllOpenDispenserAddresses {weight : String → String} {t : Tables weight}
    {floor : Option Int} {d : DispenserRow} {address : String} (hd : d ∈ t.dispensers)
    (hopen : d.expiredBlockIndex = none) (haddress : t.indexAddresses.valueOf d.addressId = some address) :
    address ∈ t.getAllOpenDispenserAddresses floor := by
  unfold getAllOpenDispenserAddresses
  have hcaptures : t.toChainRows.captures floor d = true := by
    cases floor with
    | none => simp [captures, hopen]
    | some time => simp [captures, hopen]
  exact List.mem_filterMap.mpr ⟨d, List.mem_filter.mpr ⟨hd, hcaptures⟩, haddress⟩

/-- The invariant of a forward run. -/
structure Consistent (rules : Rules) (s : Forward cfg.weight) : Prop where
  wf        : s.draft.tables.toChainRows.Wf
  blank     : s.draft.tables.indexAddresses.valueOf 1 = some ""
  addressed : ∀ d ∈ s.draft.tables.dispensers,
    ∃ address, s.draft.tables.indexAddresses.valueOf d.addressId = some address
  underWay  : ∀ b, s.current = some b → UnderWay cfg s b
  /-- a marked row had expired by the protocol time of the block that marked it -/
  marks     : ∀ d ∈ s.draft.tables.dispensers, ∀ m, d.expiredBlockIndex = some m →
    ∃ times, s.timesAt cfg m = some times ∧ d.expiration < times.protocolBlockTime
  /-- in the realigned era a block captures for every row that was open before it -/
  captured  : ∀ b, s.current = some b →
    gateActive rules.expiryRealignActivation b.head.time = true →
    ∀ d ∈ b.before.dispensers, d.expiredBlockIndex = none →
    ∃ address, s.draft.tables.indexAddresses.valueOf d.addressId = some address ∧
      address ∈ s.draft.openAddresses

theorem consistent_init : @Consistent cfg rules (init cfg.weight) where
  wf := by
    constructor <;> simp [init, Tables.fresh, heights, txIndexes]
  blank     := rfl
  addressed := by simp [init, Tables.fresh]
  underWay  := by simp [init]
  marks     := by simp [init, Tables.fresh]
  captured  := by simp [init]

/-- The rows stay well formed. -/
theorem Step.wf (h : Step rules s a s') (hs : Consistent rules s) :
    s'.draft.tables.toChainRows.Wf := by
  cases h with
  | @openBlock quarantined hash block lastTxIndex d hnone hopen =>
    rcases Draft.insertBlock_of_openBlock hopen with ⟨t₁, hinsert, hchanges⟩
    have hcommits := (commits_insertBlock _ _ _ hinsert).changes hchanges
    exact (hcommits.pass.wf_and_deleteBlock hs.wf).1
  | @ingestTransaction b tx d hsome htx hingest =>
    have hstored := (hs.underWay b hsome).stored
    exact (Draft.changes_ingestTransaction rfl hingest).wf hs.wf hstored
  | @closeBlock b hsome hall =>
    have hway := hs.underWay b hsome
    unfold closed Draft.closeBlock
    dsimp only
    split
    · exact (changes_deleteOpenDispensers b.head.time).wf hs.wf hway.stored
    · exact hs.wf
  | purgeDispensers hnone hsafe => exact hs.wf.purgeRows _ _
  | purgeUndo hnone hsafe => exact hs.wf.purgeUndo _

/-- The block under way keeps its height and its times. -/
theorem Step.underWay (h : Step rules s a s') (hs : Consistent rules s) {b : CurrentBlock cfg.weight}
    (hb : s'.current = some b) : UnderWay cfg s' b := by
  cases h with
  | @openBlock quarantined hash block lastTxIndex d hnone hopen =>
    simp only [opened, Option.some.injEq] at hb
    rcases Draft.insertBlock_of_openBlock hopen with ⟨t₁, hinsert, hchanges⟩
    have hcommits := (commits_insertBlock _ _ _ hinsert).changes hchanges
    have hstored := (hcommits.pass.mem_heights (s.nextBlockHeight cfg)).mpr (.inr rfl)
    rw [← hb]
    refine ⟨?_, hstored, Draft.timesOf rules (s.nextBlockHeight cfg) block s.draft.tables, ?_, rfl⟩
    · simp [nextBlockHeight, opened]
      omega
    · rw [timesAt_append rfl, if_pos rfl]
  | @ingestTransaction b₀ tx d hsome htx hingest =>
    simp only [ingested, Option.some.injEq] at hb
    rcases hs.underWay b₀ hsome with ⟨hheight, hstored, times, htimes, htime⟩
    rw [← hb]
    refine ⟨hheight, ?_, times, htimes, htime⟩
    rw [show (s.ingested b₀ d).draft = d from rfl,
      heights_eq_of_blocks_eq (Draft.changes_ingestTransaction rfl hingest).blocks_eq]
    exact hstored
  | closeBlock hsome hall => simp [closed] at hb
  | purgeDispensers hnone hsafe => simp [setRows, hnone] at hb
  | purgeUndo hnone hsafe => simp [setRows, hnone] at hb

/-- A block captures for the rows it found open, and drops no address again. -/
theorem Step.captured (h : Step rules s a s') (hs : Consistent rules s) {b : CurrentBlock cfg.weight}
    (hb : s'.current = some b) (hgate : gateActive rules.expiryRealignActivation b.head.time = true)
    {d : DispenserRow} (hd : d ∈ b.before.dispensers) (hopen : d.expiredBlockIndex = none) :
    ∃ address, s'.draft.tables.indexAddresses.valueOf d.addressId = some address ∧
      address ∈ s'.draft.openAddresses := by
  cases h with
  | @openBlock quarantined hash block lastTxIndex draft hnone hopenBlock =>
    simp only [opened, Option.some.injEq] at hb
    rw [← hb] at hgate hd
    rcases Draft.openBlock_cases hopenBlock with ⟨row, -, -, -, hindex, hrows, hcapture⟩
    rw [if_pos hgate] at hrows
    have hdispensers : draft.tables.dispensers = s.draft.tables.dispensers := by
      have hfield := congrArg ChainRows.dispensers hrows
      exact hfield
    rcases hs.addressed d hd with ⟨address, haddress⟩
    rw [← hindex] at haddress
    refine ⟨address, haddress, ?_⟩
    show address ∈ draft.openAddresses
    rw [hcapture]
    exact mem_getAllOpenDispenserAddresses (hdispensers ▸ hd) hopen haddress
  | @ingestTransaction b₀ tx draft hsome htx hingest =>
    simp only [ingested, Option.some.injEq] at hb
    rw [← hb] at hgate hd
    have hrewrites := Draft.rewrites_ingestTransaction hs.blank hingest
    rcases hs.captured b₀ hsome hgate d hd hopen with ⟨address, haddress, hmem⟩
    exact ⟨address, Index.valueOf_of_prefix hrewrites.grows.addresses haddress,
      hrewrites.capture.subset hmem⟩
  | closeBlock hsome hall => simp [closed] at hb
  | purgeDispensers hnone hsafe => simp [setRows, hnone] at hb
  | purgeUndo hnone hsafe => simp [setRows, hnone] at hb

theorem Step.consistent (h : Step rules s a s') (hs : Consistent rules s) : Consistent rules s' := by
  have hrows := h.rowsFrom hs.blank hs.underWay
  refine ⟨h.wf hs, Index.valueOf_of_prefix hrows.grows.addresses hs.blank, ?_,
    fun b hb => h.underWay hs hb, ?_, fun b hb hgate d hd hopen => h.captured hs hb hgate hd hopen⟩
  · intro d' hd'
    rcases hrows.origin d' hd' with ⟨d, hd, hrow⟩ | ⟨-, -, haddress⟩
    · rcases hs.addressed d hd with ⟨address, haddress⟩
      have hkey : d'.addressId = d.addressId := congrArg Prod.snd hrow.key
      rw [hkey]
      exact ⟨address, Index.valueOf_of_prefix hrows.grows.addresses haddress⟩
    · exact haddress
  · intro d' hd' m hm
    rcases hrows.origin d' hd' with ⟨d, hd, hrow⟩ | ⟨hopen, -⟩
    · cases hrow with
      | kept =>
        rcases hs.marks _ hd m hm with ⟨times, htimes, hlt⟩
        exact ⟨times, h.timesAt htimes, hlt⟩
      | extended hopen hle => simp [hopen] at hm
      | @expired times hopen htimes hlt =>
        simp only [Option.some.injEq] at hm
        exact ⟨times, hm ▸ htimes, hlt⟩
      | reopened haction hcurrent htx hmark hle hedit hsource => simp at hm
    · simp [hopen] at hm

theorem consistent (h : run rules as (init cfg.weight) = some s) : Consistent rules s :=
  reachable_invariant h consistent_init (fun _ _ _ hstep hs => hstep.consistent hs)

/-! ## Section 6: A row along a run -/

/-- No transaction index is given up. -/
theorem Step.mem_txIndexes (h : Step rules s a s') {i : Int}
    (hi : i ∈ s.draft.tables.toChainRows.txIndexes) : i ∈ s'.draft.tables.toChainRows.txIndexes := by
  cases h with
  | @openBlock quarantined hash block lastTxIndex d hnone hopen =>
    rcases Draft.openBlock_cases hopen with ⟨row, -, -, -, -, hrows, -⟩
    have hmem : i ∈ d.tables.toChainRows.txIndexes := by
      rw [hrows]
      split <;> exact hi
    exact hmem
  | ingestTransaction hsome htx hingest =>
    exact (Draft.changes_ingestTransaction rfl hingest).mem_txIndexes hi
  | closeBlock hsome hall =>
    unfold closed Draft.closeBlock
    dsimp only
    split <;> exact hi
  | purgeDispensers hnone hsafe => exact hi
  | purgeUndo hnone hsafe => exact hi

/-- The row a step makes of `d`, among the rows of the next state. -/
theorem Step.rowStep (h : Step rules s a s') (hs : Consistent rules s) {d d' : DispenserRow}
    (hd : d ∈ s.draft.tables.dispensers) (hd' : d' ∈ s'.draft.tables.dispensers)
    (hkey : d'.key = d.key) : RowStep rules s s' a d d' := by
  rcases (h.rowsFrom hs.blank hs.underWay).origin d' hd' with ⟨d₀, hd₀, hrow⟩ | ⟨-, hfresh, -⟩
  · have hsame : d₀.key = d.key := by rw [← hrow.key, hkey]
    rw [← hs.wf.dispenser_eq hd₀ hd hsame]
    exact hrow
  · have htx : d'.txIndex = d.txIndex := congrArg Prod.fst hkey
    rw [htx] at hfresh
    exact absurd (hs.wf.dispenser_tx d hd) hfresh

/-- Over any number of steps an expiration never decreases. -/
theorem expiration_le_of_run (hs : Consistent rules s) {d : DispenserRow}
    (hd : d ∈ s.draft.tables.dispensers) (h : run rules bs s = some s') {d' : DispenserRow}
    (hd' : d' ∈ s'.draft.tables.dispensers) (hkey : d'.key = d.key) :
    d.expiration ≤ d'.expiration := by
  -- the key of a purged row is not used again, its transaction is still there
  have hrun := run_invariant (P := fun s₁ => Consistent rules s₁ ∧
    d.txIndex ∈ s₁.draft.tables.toChainRows.txIndexes ∧
    ∀ d₁ ∈ s₁.draft.tables.dispensers, d₁.key = d.key → d.expiration ≤ d₁.expiration) h
  refine (hrun ⟨hs, hs.wf.dispenser_tx d hd, ?_⟩ ?_).2.2 d' hd' hkey
  · intro d₁ hd₁ hkey₁
    rw [hs.wf.dispenser_eq hd₁ hd hkey₁]
  · rintro a₁ s₁ s₂ hstep ⟨hs₁, htx, hle⟩
    refine ⟨hstep.consistent hs₁, hstep.mem_txIndexes htx, ?_⟩
    intro d₂ hd₂ hkey₂
    rcases (hstep.rowsFrom hs₁.blank hs₁.underWay).origin d₂ hd₂ with ⟨d₁, hd₁, hrow⟩ | ⟨-, hfresh, -⟩
    · have hkey₁ : d₁.key = d.key := by rw [← hrow.key, hkey₂]
      exact (hle d₁ hd₁ hkey₁).trans hrow.expiration_le
    · have hsame : d₂.txIndex = d.txIndex := congrArg Prod.fst hkey₂
      rw [hsame] at hfresh
      exact absurd htx hfresh

/-- No block boundary on the way shows the row of `key` marked. -/
def Unmarked (rules : Rules) (key : Int × Nat) : List Action → Forward cfg.weight → Prop
  | [],      s => s.current = none →
      ∀ d ∈ s.draft.tables.dispensers, d.key = key → d.expiredBlockIndex = none
  | a :: as, s =>
      (s.current = none →
        ∀ d ∈ s.draft.tables.dispensers, d.key = key → d.expiredBlockIndex = none) ∧
      ∀ s', step rules a s = some s' → Unmarked rules key as s'

/-- The state at hand is on the way. -/
theorem Unmarked.here {key : Int × Nat} (h : Unmarked rules key bs s) (hcurrent : s.current = none) :
    ∀ d ∈ s.draft.tables.dispensers, d.key = key → d.expiredBlockIndex = none := by
  cases bs with
  | nil => exact h hcurrent
  | cons a as => exact h.1 hcurrent

/-- The row of `key` is stored, and the block under way, if there is one, found
    it open. -/
structure Present (key : Int × Nat) (s : Forward cfg.weight) : Prop where
  stored : ∃ d ∈ s.draft.tables.dispensers, d.key = key
  before : ∀ b, s.current = some b →
    ∃ d ∈ b.before.dispensers, d.key = key ∧ d.expiredBlockIndex = none

theorem Step.present {key : Int × Nat} (h : Step rules s a s') (hs : Consistent rules s)
    (hpresent : Present key s) (hunmarked : s.current = none →
      ∀ d ∈ s.draft.tables.dispensers, d.key = key → d.expiredBlockIndex = none) :
    Present key s' := by
  have hrows := h.rowsFrom hs.blank hs.underWay
  rcases hpresent.stored with ⟨d, hd, hkey⟩
  have hstored : d.expiredBlockIndex = none ∨ a ≠ .purgeDispensers →
      ∃ d' ∈ s'.draft.tables.dispensers, d'.key = key := by
    intro hwhy
    rcases hrows.kept d hd hwhy with ⟨d', hd', hrow⟩
    exact ⟨d', hd', by rw [hrow.key, hkey]⟩
  cases h with
  | openBlock hnone hopen =>
    refine ⟨hstored (.inr (by simp)), ?_⟩
    intro b hb
    simp only [opened, Option.some.injEq] at hb
    rw [← hb]
    exact ⟨d, hd, hkey, hunmarked hnone d hd hkey⟩
  | @ingestTransaction b₀ tx draft hsome htx hingest =>
    refine ⟨hstored (.inr (by simp)), ?_⟩
    intro b hb
    simp only [ingested, Option.some.injEq] at hb
    rw [← hb]
    exact hpresent.before b₀ hsome
  | closeBlock hsome hall => exact ⟨hstored (.inr (by simp)), by simp [closed]⟩
  | purgeDispensers hnone hsafe =>
    exact ⟨hstored (.inl (hunmarked hnone d hd hkey)), by simp [setRows, hnone]⟩
  | purgeUndo hnone hsafe => exact ⟨hstored (.inr (by simp)), by simp [setRows, hnone]⟩

theorem present_of_run {key : Int × Nat} (h : run rules bs s = some s') (hs : Consistent rules s)
    (hpresent : Present key s) (hunmarked : Unmarked rules key bs s) : Present key s' := by
  induction bs generalizing s with
  | nil =>
    simp only [run_nil, Option.some.injEq] at h
    rw [← h]
    exact hpresent
  | cons a as ih =>
    rcases Option.bind_eq_some_iff.mp h with ⟨s₁, hfirst, hrest⟩
    have hstep := step_cases hfirst
    exact ih hrest (hstep.consistent hs) (hstep.present hs hpresent hunmarked.here)
      (hunmarked.2 s₁ hfirst)

/-- A transaction of the block that marked a row edits it. -/
def ReopenedBy (rules : Rules) (s s' : Forward cfg.weight) (a : Action) (d : DispenserRow) : Prop :=
  ∃ b tx edit, a = .ingestTransaction ∧ s.current = some b ∧
    d.expiredBlockIndex = some b.head.blockIndex ∧
    b.block.transactions[b.position]? = some tx ∧
    edit ∈ Draft.editsOf rules b.head (b.quarantined b.position) tx s.draft.openAddresses ∧
    operates (s'.draft.tables.indexAddresses.idOf edit.1) d = true

/-- **Main theorem.** A dispenser row of any state of any forward run: from there
    on its expiration never decreases; it is marked by the block under way only,
    and only when its expiration is below that block's protocol time; the mark is
    taken back only by an edit in the block that set it; and a row that is open
    before a block is captured for every transaction of every realigned block up
    to and including the one that marks it. -/
theorem never_closes_early (h : run rules as (init cfg.weight) = some s) {d : DispenserRow}
    (hd : d ∈ s.draft.tables.dispensers) :
    (∀ bs s', run rules bs s = some s' → ∀ d' ∈ s'.draft.tables.dispensers,
      d'.key = d.key → d.expiration ≤ d'.expiration) ∧
    (∀ a s', step rules a s = some s' → ∀ d' ∈ s'.draft.tables.dispensers, d'.key = d.key →
      d.expiredBlockIndex = none → ∀ m, d'.expiredBlockIndex = some m →
      m = s'.nextBlockHeight cfg - 1 ∧ d'.expiration = d.expiration ∧
        ∃ times, s'.timesAt cfg m = some times ∧ d.expiration < times.protocolBlockTime) ∧
    (∀ a s', step rules a s = some s' → ∀ d' ∈ s'.draft.tables.dispensers, d'.key = d.key →
      d.expiredBlockIndex ≠ none → d'.expiredBlockIndex = none → ReopenedBy rules s s' a d) ∧
    (∀ bs s' b, s.current = none → Unmarked rules d.key bs s → run rules bs s = some s' →
      s'.current = some b → gateActive rules.expiryRealignActivation b.head.time = true →
      ∃ address, s'.draft.tables.indexAddresses.valueOf d.addressId = some address ∧
        address ∈ s'.draft.openAddresses) := by
  have hs := consistent h
  refine ⟨?_, ?_, ?_, ?_⟩
  · intro bs s' hrun d' hd' hkey
    exact expiration_le_of_run hs hd hrun hd' hkey
  · intro a s' hstep d' hd' hkey hopen m hm
    -- only the block close sets a mark
    cases (step_cases hstep).rowStep hs hd hd' hkey with
    | kept => simp [hopen] at hm
    | extended hopen' hle => simp [hopen] at hm
    | @expired times hopen' htimes hlt =>
      simp only [Option.some.injEq] at hm
      exact ⟨hm.symm, rfl, times, hm ▸ htimes, hlt⟩
    | reopened haction hcurrent htx hmark hle hedit hsource => simp at hm
  · intro a s' hstep d' hd' hkey hmarked hopen
    -- and only an edit takes one away
    cases (step_cases hstep).rowStep hs hd hd' hkey with
    | kept => exact absurd hopen hmarked
    | extended hopen' hle => exact absurd hopen' hmarked
    | expired hopen' htimes hlt => exact absurd hopen' hmarked
    | @reopened b tx edit expiration haction hcurrent htx hmark hle hedit hsource =>
      exact ⟨b, tx, edit, haction, hcurrent, hmark, htx, hedit, hsource⟩
  · intro bs s' b hnone hunmarked hrun hb hgate
    have hstart : Present d.key s := ⟨⟨d, hd, rfl⟩, by simp [hnone]⟩
    rcases (present_of_run hrun hs hstart hunmarked).before b hb with ⟨d₁, hd₁, hkey, hopen⟩
    have hs' := run_invariant hrun hs (fun _ _ _ hstep hs₁ => hstep.consistent hs₁)
    have haddress : d₁.addressId = d.addressId := congrArg Prod.snd hkey
    rw [← haddress]
    exact hs'.captured b hb hgate d₁ hd₁ hopen

end Forward

namespace Sample

/-- One transaction creates a dispenser. -/
def creating : List Action := ingestAll 600 [⟨some hashB, [1]⟩] (-1)

/-- One transaction of the next block edits it. -/
def editing : List Action := ingestAll 1200 [⟨some hashC, [2]⟩] 0

def createdRow : DispenserRow := ⟨0, 3, 5000, none, some 2, none⟩
def editedRow : DispenserRow := ⟨0, 3, 9000, none, some 2, none⟩

theorem run_creating : (@Forward.run config (rules true) creating
    (Forward.init config.weight)).isSome = true := by
  decide +kernel

def created : Forward config.weight :=
  (@Forward.run config (rules true) creating (Forward.init config.weight)).get run_creating

theorem run_editing : (@Forward.run config (rules true) editing created).isSome = true := by
  decide +kernel

def edited : Forward config.weight :=
  (@Forward.run config (rules true) editing created).get run_editing

theorem never_closes_early_created :
    createdRow ∈ created.draft.tables.dispensers ∧ editedRow ∈ edited.draft.tables.dispensers ∧
      createdRow.expiration ≤ editedRow.expiration := by
  have hcreated : createdRow ∈ created.draft.tables.dispensers := by decide +kernel
  have hedited : editedRow ∈ edited.draft.tables.dispensers := by decide +kernel
  have hrun : @Forward.run config (rules true) creating (Forward.init config.weight) = some created :=
    (Option.some_get run_creating).symm
  have hrest : @Forward.run config (rules true) editing created = some edited :=
    (Option.some_get run_editing).symm
  have hlife := Forward.never_closes_early hrun hcreated
  exact ⟨hcreated, hedited, hlife.1 editing edited hrest editedRow hedited rfl⟩

end Sample

end XChainDecoder
