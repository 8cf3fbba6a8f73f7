import XChainDecoder.Ingest.Draft
import XChainDecoder.Reorg.Run

/-! # The draft of a block is a pass

    Each statement of a draft is a row change of its block, or touches the lookup
    and audit tables only. So what a pass commits is what `Commits` allows: rows
    that hang off the new block, lookup tables that have grown, audit rows of
    skipped transactions. Deleting the block then gives back the rows the pass
    started from. -/

namespace XChainDecoder

open Relation ChainRows

variable {weight : String → String} {rules : Rules} {head : BlockHead} {n : Int}

namespace Tables

variable {t t' t'' : Tables weight}

/-! ## Section 1: What one statement changes -/

/-- `t'` is `t` after statements of a pass of block `n`. -/
structure Changes (n : Int) (t t' : Tables weight) : Prop where
  rows   : ReflTransGen (RowChange n) t.toChainRows t'.toChainRows
  grows  : Grows t t'
  events : ∃ news, t'.events = news ++ t.events ∧
    ∀ e ∈ news, ∃ time height position hash error, e = .parseError time height position hash error

theorem Changes.refl (n : Int) (t : Tables weight) : Changes n t t :=
  ⟨.refl, Grows.refl t, [], rfl, nofun⟩

theorem Changes.trans (h : Changes n t t') (h' : Changes n t' t'') : Changes n t t'' := by
  obtain ⟨news, hnews, hall⟩ := h.events
  obtain ⟨news', hnews', hall'⟩ := h'.events
  refine ⟨h.rows.trans h'.rows, h.grows.trans h'.grows, news' ++ news, ?_, ?_⟩
  · rw [hnews', hnews, List.append_assoc]
  · intro e he
    rcases List.mem_append.mp he with he | he
    · exact hall' e he
    · exact hall e he

/-- A change of the lookup tables alone. -/
theorem Changes.ofLookups (hrows : t'.toChainRows = t.toChainRows) (hgrows : Grows t t')
    (hevents : t'.events = t.events) : Changes n t t' :=
  ⟨hrows ▸ .refl, hgrows, [], hevents, nofun⟩

/-- A row change on top of a change of the lookup tables. -/
theorem Changes.ofRow {c : ChainRows} (hgrows : Grows t t') (hevents : t'.events = t.events)
    (hrow : RowChange n t.toChainRows c) : Changes n t { t' with toChainRows := c } :=
  ⟨.single hrow, ⟨hgrows.addresses, hgrows.transactions, hgrows.pubkeys, hgrows.events⟩, [],
    hevents, nofun⟩

/-- A transaction of the block stays one. -/
theorem mem_txIndexesOf_of_rowChanges {c c' : ChainRows} {i : Int}
    (h : ReflTransGen (RowChange n) c c') (hi : i ∈ c.txIndexesOf n) : i ∈ c'.txIndexesOf n := by
  induction h with
  | refl => exact hi
  | tail _ hlast ih =>
    cases hlast with
    | transaction x hblock hfresh =>
      obtain ⟨y, hy, hyn, rfl⟩ := ChainRows.mem_txIndexesOf.mp ih
      exact ChainRows.mem_txIndexesOf.mpr ⟨y, List.mem_append_left _ hy, hyn, rfl⟩
    | output o htx                 => exact ih
    | dispenser d htx hfresh hopen => exact ih
    | extend sourceId e            => exact ih
    | expire e                     => exact ih

/-- The statements behind the block row write no block. -/
theorem Changes.blocks_eq (h : Changes n t t') : t'.blocks = t.blocks := by
  have hrun := h.rows
  generalize t.toChainRows = c at hrun
  generalize t'.toChainRows = c' at hrun
  induction hrun with
  | refl => rfl
  | tail _ hlast ih => exact hlast.blocks_eq.trans ih

/-- No transaction is deleted. -/
theorem Changes.mem_txIndexes (h : Changes n t t') {i : Int} (hi : i ∈ t.toChainRows.txIndexes) :
    i ∈ t'.toChainRows.txIndexes := by
  have hrun := h.rows
  generalize t'.toChainRows = c' at hrun
  induction hrun with
  | refl => exact hi
  | tail _ hlast ih =>
    cases hlast with
    | transaction x hblock hfresh =>
      simp only [txIndexes, List.map_append, List.mem_append]
      exact .inl ih
    | output o htx                 => exact ih
    | dispenser d htx hfresh hopen => exact ih
    | extend sourceId e            => exact ih
    | expire e                     => exact ih

/-- The statements of a stored block keep the rows well formed. -/
theorem Changes.wf (h : Changes n t t') (hwf : t.toChainRows.Wf) (hn : n ∈ t.toChainRows.heights) :
    t'.toChainRows.Wf := by
  have hrun := h.rows
  generalize t'.toChainRows = c' at hrun
  have hboth : c'.Wf ∧ n ∈ c'.heights := by
    induction hrun with
    | refl => exact ⟨hwf, hn⟩
    | tail _ hlast ih =>
      rw [heights_eq_of_blocks_eq hlast.blocks_eq]
      exact ⟨hlast.wf ih.1 ih.2, ih.2⟩
  exact hboth.1

theorem Changes.mem_txIndexesOf (h : Changes n t t') {i : Int}
    (hi : i ∈ t.toChainRows.txIndexesOf n) : i ∈ t'.toChainRows.txIndexesOf n :=
  mem_txIndexesOf_of_rowChanges h.rows hi

theorem changes_insertEvent (position : Nat) (hash : Option Hash) (error : String) :
    Changes n t (t.insertEvent (head.parseError position hash error)) where
  rows   := .refl
  grows  := ⟨List.prefix_rfl, List.prefix_rfl, List.prefix_rfl, List.suffix_cons _ _⟩
  events := by
    refine ⟨[head.parseError position hash error], rfl, fun e he => ?_⟩
    rw [List.mem_singleton.mp he]
    exact ⟨_, _, _, _, _, rfl⟩

theorem changes_exposePubkey (source pubkey : Option String) :
    Changes n t (t.exposePubkey source pubkey) := by
  unfold exposePubkey
  split
  · split
    · exact .refl n t
    · exact .ofLookups (insertPubkey_toChainRows _ _ _) (insertPubkey_grows _ _ _)
        (insertPubkey_events _ _ _)
  · exact .refl n t

theorem changes_createAddress (a : Option String) : Changes n t (t.createAddress a).2 :=
  .ofLookups (createAddress_toChainRows t a) (createAddress_grows t a) (createAddress_events t a)

theorem changes_createAddresses (addresses : List String) :
    ∀ t : Tables weight, Changes n t (t.createAddresses addresses) := by
  induction addresses with
  | nil => exact fun t => .refl n t
  | cons a as ih => exact fun t => (changes_createAddress (some a)).trans (ih _)

theorem changes_deleteOpenDispensers (minExpiration : Int) :
    Changes n t (t.deleteOpenDispensers n minExpiration) :=
  .ofRow (Grows.refl t) rfl (.expire minExpiration)

theorem changes_extendEditedDispenser (edit : String × Int) :
    Changes n t (t.extendEditedDispenser n edit) := by
  show Changes n t { t with toChainRows := _ }
  exact .ofRow (Grows.refl t) rfl (.extend (t.indexAddresses.idOf edit.1) edit.2)

/-- The row of a transaction, under an index nothing stored has. -/
theorem changes_insertTransaction {tx : NewTransaction} (hblock : tx.blockIndex = n)
    (h : t.insertTransaction tx = some t') :
    Changes n t t' ∧ tx.index ∈ t'.toChainRows.txIndexesOf n := by
  unfold insertTransaction at h
  dsimp only at h
  split at h
  · cases h
  · rename_i hfresh
    rw [Option.some.injEq] at h
    subst h
    have hgrows := (t.createTransaction_grows tx.hash).trans
      (((createAddress_grows _ tx.source).trans (createAddress_grows _ tx.destination)).trans
        (recordSourcePubkey_grows _ ((t.createTransaction tx.hash).2.createAddress tx.source).1
          tx.sourcePubkey))
    refine ⟨?_, ?_⟩
    · have hrow := RowChange.transaction (c := t.toChainRows) (n := n)
        ⟨tx.index, (t.createTransaction tx.hash).1, tx.blockIndex,
          ((t.createTransaction tx.hash).2.createAddress tx.source).1,
          (((t.createTransaction tx.hash).2.createAddress tx.source).2.createAddress
            tx.destination).1, tx.data, tx.rawData⟩ hblock (fun hmem => hfresh (.inl hmem))
      have hchange := Changes.ofRow hgrows (by simp) hrow
      convert hchange using 1
      simp
    · exact ChainRows.mem_txIndexesOf.mpr ⟨_, List.mem_append_right _ List.mem_cons_self, hblock, rfl⟩

theorem changes_insertOutput {txIndex : Int} {o : Output}
    (htx : txIndex ∈ t.toChainRows.txIndexesOf n) (h : t.insertOutput txIndex o = some t') :
    Changes n t t' := by
  unfold insertOutput insertTransactionOutput at h
  dsimp only at h
  split at h
  · cases h
  · rw [Option.some.injEq] at h
    subst h
    have hrow := RowChange.output (c := t.toChainRows)
      ⟨txIndex, o.vout, (t.createAddress o.destinationAddress).1, o.amount⟩ htx
    have hchange := Changes.ofRow (createAddress_grows t o.destinationAddress) (by simp) hrow
    convert hchange using 1
    simp

theorem changes_insertOutputs {txIndex : Int} (os : List Output) :
    ∀ {t : Tables weight}, txIndex ∈ t.toChainRows.txIndexesOf n →
    insertOutputs txIndex os t = some t' → Changes n t t' := by
  induction os with
  | nil =>
    intro t _ h
    cases h
    exact .refl n _
  | cons o os ih =>
    intro t htx h
    obtain ⟨t₁, ht₁, hrest⟩ := Option.bind_eq_some_iff.mp h
    have hfirst := changes_insertOutput htx ht₁
    exact hfirst.trans (ih (hfirst.mem_txIndexesOf htx) hrest)

theorem changes_insertDispenser {d : NewDispenser} (htx : d.txIndex ∈ t.toChainRows.txIndexesOf n) :
    Changes n t (t.insertDispenser d) := by
  unfold insertDispenser
  dsimp only
  have hgrows := (createAddress_grows t d.address).trans
    ((createOptionalAddress_grows _ d.oracleAddress).trans
      (createOptionalAddress_grows _ (if d.sourceAddress = d.address then none else d.sourceAddress)))
  split
  · exact .ofLookups (by simp) hgrows (by simp)
  · rename_i hfresh
    have hrow := RowChange.dispenser (c := t.toChainRows)
      ⟨d.txIndex, (t.createAddress d.address).1, d.expiration,
        ((t.createAddress d.address).2.createOptionalAddress d.oracleAddress).1,
        (((t.createAddress d.address).2.createOptionalAddress d.oracleAddress).2.createOptionalAddress
          (if d.sourceAddress = d.address then none else d.sourceAddress)).1, none⟩ htx hfresh rfl
    have hchange := Changes.ofRow hgrows (by simp) hrow
    convert hchange using 1
    simp

theorem changes_registerDispensers {txIndex : Int} (cs : List DispenserCreate) :
    ∀ {t : Tables weight}, txIndex ∈ t.toChainRows.txIndexesOf n →
    Changes n t (cs.foldl (fun t c => t.registerDispenser txIndex c) t) := by
  induction cs with
  | nil => exact fun _ => .refl n _
  | cons c cs ih =>
    intro t htx
    have hfirst : Changes n t (t.registerDispenser txIndex c) := changes_insertDispenser htx
    exact hfirst.trans (ih (hfirst.mem_txIndexesOf htx))

theorem changes_extendEditedDispensers (edits : List (String × Int)) :
    ∀ t : Tables weight, Changes n t (edits.foldl (fun t edit => t.extendEditedDispenser n edit) t) := by
  induction edits with
  | nil => exact fun t => .refl n t
  | cons edit edits ih => exact fun t => (changes_extendEditedDispenser edit).trans (ih _)

theorem changes_collapseDispenserRegistrations (time : Int) (candidates : List DispenserCreate) :
    Changes n t (t.collapseDispenserRegistrations rules time candidates).2 := by
  unfold collapseDispenserRegistrations
  split
  · exact changes_createAddresses _ t
  · exact .refl n t

end Tables

/-! ## Section 2: The draft -/

namespace Draft

open Tables

variable {d d' : Draft weight}

theorem changes_persistTransaction {hash : Hash} {r : ParseResult} {stored : StoredRecord}
    (hn : head.blockIndex = n) (h : d.persistTransaction rules head hash r stored = some d') :
    Changes n d.tables d'.tables := by
  unfold persistTransaction at h
  obtain ⟨t₁, hrow, h⟩ := Option.bind_eq_some_iff.mp h
  obtain ⟨t₂, hdispense, h⟩ := Option.bind_eq_some_iff.mp h
  obtain ⟨t₃, hpayment, h⟩ := Option.bind_eq_some_iff.mp h
  rw [Option.pure_def, Option.some.injEq] at h
  subst h
  obtain ⟨h₁, htx₁⟩ := changes_insertTransaction (n := n) hn hrow
  have h₂ := changes_insertOutputs _ htx₁ hdispense
  have htx₂ := h₂.mem_txIndexesOf htx₁
  have h₃ := changes_insertOutputs _ htx₂ hpayment
  have h₄ : Changes n t₃ (registrations rules head r
      (rules.captureCommands stored.data head.time) t₃).2 :=
    changes_collapseDispenserRegistrations head.time _
  have htx₄ := h₄.mem_txIndexesOf (h₃.mem_txIndexesOf htx₂)
  have h₅ := changes_registerDispensers (registrations rules head r
    (rules.captureCommands stored.data head.time) t₃).1 htx₄
  have h₆ := changes_extendEditedDispensers (n := n) (dispenserEdits rules
    (rules.captureCommands stored.data head.time) r.source head.time)
    ((registrations rules head r (rules.captureCommands stored.data head.time) t₃).1.foldl
      (fun t c => t.registerDispenser d.lastTxIndex c)
      (registrations rules head r (rules.captureCommands stored.data head.time) t₃).2)
  rw [hn]
  exact h₁.trans (h₂.trans (h₃.trans (h₄.trans (h₅.trans h₆))))

theorem changes_storeResult {hash : Hash} {r : ParseResult} (hn : head.blockIndex = n)
    (h : d.storeResult rules head hash r = some d') : Changes n d.tables d'.tables := by
  unfold storeResult at h
  dsimp only at h
  split at h
  · split at h
    · cases h
      exact .refl n _
    · split at h
      · cases h
      · exact changes_persistTransaction (d := { d with lastTxIndex := d.lastTxIndex + 1 }) hn h
  · cases h
    exact .refl n _

theorem changes_ingestTransaction {quarantined : Bool} {position : Nat} {tx : RawTransaction}
    (hn : head.blockIndex = n)
    (h : d.ingestTransaction rules head quarantined position tx = some d') :
    Changes n d.tables d'.tables := by
  unfold ingestTransaction at h
  split at h
  · cases h
    exact changes_insertEvent _ _ _
  · split at h
    · cases h
      exact changes_insertEvent _ _ _
    · split at h
      · cases h
        exact .refl n _
      · cases h
        exact (changes_exposePubkey _ _).trans (changes_insertEvent _ _ _)
      · exact (changes_exposePubkey _ _).trans (changes_storeResult hn h)

theorem changes_ingestTransactions {quarantined : Nat → Bool} (hn : head.blockIndex = n)
    (txs : List RawTransaction) :
    ∀ {d : Draft weight} (position : Nat),
    d.ingestTransactions rules head quarantined position txs = some d' →
    Changes n d.tables d'.tables := by
  induction txs with
  | nil =>
    intro d position h
    cases h
    exact .refl n _
  | cons tx txs ih =>
    intro d position h
    obtain ⟨d₁, hd₁, hrest⟩ := Option.bind_eq_some_iff.mp h
    exact (changes_ingestTransaction hn hd₁).trans (ih (position + 1) hrest)

/-- The block row a draft starts with. -/
theorem insertBlock_of_openBlock {hash : Hash} {block : RawBlock} {t : Tables weight} {index : Int}
    (h : openBlock rules n hash block t index = some d) :
    ∃ t₁, t.insertBlock n (timesOf rules n block t).rawBlockTime hash block.prevHash = some t₁ ∧
      Changes n t₁ d.tables := by
  obtain ⟨t₁, ht₁, h⟩ := Option.bind_eq_some_iff.mp h
  refine ⟨t₁, ht₁, ?_⟩
  rw [Option.pure_def, Option.some.injEq] at h
  subst h
  dsimp only
  split
  · exact .refl n _
  · exact changes_deleteOpenDispensers _

theorem insertBlock_of_ingestBlock {quarantined : Nat → Bool} {hash : Hash} {block : RawBlock}
    {t : Tables weight} {index : Int}
    (h : ingestBlock rules quarantined n hash block t index = some d) :
    ∃ t₁, t.insertBlock n (timesOf rules n block t).rawBlockTime hash block.prevHash = some t₁ ∧
      Changes n t₁ d.tables := by
  obtain ⟨d₁, hopen, h⟩ := Option.bind_eq_some_iff.mp h
  obtain ⟨d₂, hrun, h⟩ := Option.bind_eq_some_iff.mp h
  rw [Option.pure_def, Option.some.injEq] at h
  subst h
  obtain ⟨t₁, ht₁, hstart⟩ := insertBlock_of_openBlock hopen
  have hclose : Changes n d₂.tables (d₂.closeBlock rules n
      (timesOf rules n block t).protocolBlockTime).tables := by
    unfold closeBlock
    split
    · exact changes_deleteOpenDispensers _
    · exact .refl n _
  exact ⟨t₁, ht₁, hstart.trans ((changes_ingestTransactions rfl _ 0 hrun).trans hclose)⟩

end Draft

/-- Statements of the pass on top of what it commits. -/
theorem Commits.changes {t t₁ t₂ : Tables weight} (h : Commits n t t₁)
    (h' : Tables.Changes n t₁ t₂) : Commits n t t₂ where
  pass   := by
    obtain ⟨b, hb, hfresh, hrun⟩ := h.pass
    exact ⟨b, hb, hfresh, hrun.trans h'.rows⟩
  grows  := h.grows.trans h'.grows
  hashed := by
    intro b hb hindex
    obtain ⟨hash, hhash⟩ := h.hashed b (h'.blocks_eq ▸ hb) hindex
    exact ⟨hash, Index.valueOf_of_prefix h'.grows.transactions hhash⟩
  events := by
    obtain ⟨news, hnews, hall⟩ := h.events
    obtain ⟨news', hnews', hall'⟩ := h'.events
    refine ⟨news' ++ news, by rw [hnews', hnews, List.append_assoc], fun e he => ?_⟩
    rcases List.mem_append.mp he with he | he
    · exact hall' e he
    · exact hall e he

/-- **Main theorem.** The draft of a block is what a pass of that block commits. -/
theorem commits_ingestBlock {quarantined : Nat → Bool} {hash : Hash} {block : RawBlock}
    {t : Tables weight} {index : Int} {d : Draft weight}
    (h : Draft.ingestBlock rules quarantined n hash block t index = some d) :
    Commits n t d.tables := by
  obtain ⟨t₁, hinsert, hchanges⟩ := Draft.insertBlock_of_ingestBlock h
  exact (commits_insertBlock _ hash block.prevHash hinsert).changes hchanges

end XChainDecoder
