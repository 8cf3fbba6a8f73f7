import Mathlib.Logic.Relation
import Mathlib.Data.List.Basic
import XChainDecoder.Db.Dispensers

/-! # A block pass, and its inverse

    `RowChange n` is what one statement of a pass of block `n` can do to the
    chain rows, whatever the block holds: add a transaction of the block, an
    output or a dispenser of such a transaction, extend the dispensers of a
    source, mark the expired ones. A pass inserts the block row and then makes
    any number of row changes.

    `Wf` is what holds of the chain rows in between: every row hangs off a
    stored block. On well-formed rows no row change of block `n` can be seen
    through `deleteBlock n`, so deleting the block undoes the whole pass. -/

namespace XChainDecoder

open Relation

/-- The primary key of a dispenser row. -/
def DispenserRow.key (d : DispenserRow) : Int × Nat := (d.txIndex, d.addressId)

namespace ChainRows

/-! ## Section 1: Row changes -/

inductive RowChange (n : Int) : ChainRows → ChainRows → Prop where
  | transaction {c : ChainRows} (x : TransactionRow)
      (hblock : x.blockIndex = n) (hfresh : x.txIndex ∉ c.txIndexes) :
      RowChange n c { c with transactions := c.transactions ++ [x] }
  | output {c : ChainRows} (o : TransactionOutputRow) (htx : o.txIndex ∈ c.txIndexesOf n) :
      RowChange n c { c with transactionOutputs := c.transactionOutputs ++ [o] }
  | dispenser {c : ChainRows} (d : DispenserRow) (htx : d.txIndex ∈ c.txIndexesOf n)
      (hfresh : d.key ∉ c.dispensers.map DispenserRow.key) (hopen : d.expiredBlockIndex = none) :
      RowChange n c { c with dispensers := c.dispensers ++ [d] }
  | extend {c : ChainRows} (sourceId : Option Nat) (newExpiration : Int) :
      RowChange n c ((c.recordDispenserExtensionUndo sourceId n).extendOpenDispenserExpiration
        sourceId newExpiration n)
  | expire {c : ChainRows} (minExpiration : Int) :
      RowChange n c (c.deleteOpenDispensers n minExpiration)

/-- The rows with one more block. -/
def addBlock (c : ChainRows) (b : BlockRow) : ChainRows := { c with blocks := c.blocks ++ [b] }

/-- `c'` is `c` with one more block `n` and the rows its pass wrote. -/
def Pass (n : Int) (c c' : ChainRows) : Prop :=
  ∃ b : BlockRow, b.blockIndex = n ∧ n ∉ c.heights ∧
    ReflTransGen (RowChange n) (c.addBlock b) c'

/-! ## Section 2: Well-formed rows -/

structure Wf (c : ChainRows) : Prop where
  /-- the primary key of `blocks` -/
  heights_nodup : c.heights.Nodup
  /-- the primary key of `transactions` -/
  txIndexes_nodup : c.txIndexes.Nodup
  /-- every transaction belongs to a stored block -/
  tx_block : ∀ x ∈ c.transactions, x.blockIndex ∈ c.heights
  /-- every output and dispenser belongs to a stored transaction -/
  output_tx : ∀ o ∈ c.transactionOutputs, o.txIndex ∈ c.txIndexes
  dispenser_tx : ∀ d ∈ c.dispensers, d.txIndex ∈ c.txIndexes
  /-- the primary key of `dispensers` -/
  dispensers_nodup : (c.dispensers.map DispenserRow.key).Nodup
  /-- an expiry mark names a stored block -/
  mark_block : ∀ d ∈ c.dispensers, ∀ m, d.expiredBlockIndex = some m → m ∈ c.heights
  /-- an undo row names a stored block, and a mark it recorded is that block's -/
  undo_block : ∀ u ∈ c.dispenserExtensionUndo, u.blockIndex ∈ c.heights
  undo_mark : ∀ u ∈ c.dispenserExtensionUndo,
    u.priorExpiredBlockIndex = none ∨ u.priorExpiredBlockIndex = some u.blockIndex

variable {n : Int} {c c' : ChainRows}

theorem mem_txIndexesOf {i : Int} :
    i ∈ c.txIndexesOf n ↔ ∃ x ∈ c.transactions, x.blockIndex = n ∧ x.txIndex = i := by
  simp [txIndexesOf, and_assoc]

theorem txIndexesOf_subset {i : Int} (h : i ∈ c.txIndexesOf n) : i ∈ c.txIndexes := by
  obtain ⟨x, hx, -, rfl⟩ := mem_txIndexesOf.mp h
  exact List.mem_map_of_mem hx

/-- With one key per dispenser, rows of one key are one row. -/
theorem Wf.dispenser_eq (hc : c.Wf) {d e : DispenserRow} (hd : d ∈ c.dispensers)
    (he : e ∈ c.dispensers) (hk : d.key = e.key) : d = e :=
  List.inj_on_of_nodup_map hc.dispensers_nodup hd he hk

/-! ## Section 3: The row functions keep the key -/

@[simp] theorem expireRow_key (e : Int) (d : DispenserRow) : (expireRow n e d).key = d.key := by
  unfold expireRow; split <;> rfl

@[simp] theorem extendRow_key (e : Int) (d : DispenserRow) : (extendRow e n d).key = d.key := rfl

@[simp] theorem clearExpiry_key (d : DispenserRow) : (clearExpiry n d).key = d.key := by
  unfold clearExpiry; split <;> rfl

@[simp] theorem restoreRow_key (undo : List ExtensionUndoRow) (d : DispenserRow) :
    (restoreRow undo n d).key = d.key := by
  unfold restoreRow; split <;> rfl

@[simp] theorem expireRow_txIndex (e : Int) (d : DispenserRow) :
    (expireRow n e d).txIndex = d.txIndex := congrArg Prod.fst (expireRow_key e d)

@[simp] theorem clearExpiry_txIndex (d : DispenserRow) :
    (clearExpiry n d).txIndex = d.txIndex := congrArg Prod.fst (clearExpiry_key d)

@[simp] theorem restoreRow_txIndex (undo : List ExtensionUndoRow) (d : DispenserRow) :
    (restoreRow undo n d).txIndex = d.txIndex := congrArg Prod.fst (restoreRow_key undo d)

/-- A map over dispensers that keeps keys keeps the list of keys. -/
theorem map_key_of_key_eq {f : DispenserRow → DispenserRow} (hf : ∀ d, (f d).key = d.key)
    (l : List DispenserRow) : (l.map f).map DispenserRow.key = l.map DispenserRow.key := by
  rw [List.map_map]
  exact List.map_congr_left (fun d _ => hf d)

/-- One round of an extend, as a function of the row. -/
def extendIf (sourceId : Option Nat) (e n : Int) (d : DispenserRow) : DispenserRow :=
  if extendable sourceId n d then extendRow e n d else d

@[simp] theorem extendIf_key (sourceId : Option Nat) (e : Int) (d : DispenserRow) :
    (extendIf sourceId e n d).key = d.key := by
  unfold extendIf; split <;> rfl

/-! ## Section 4: Row changes keep the rows well formed -/

theorem Wf.addBlock (hc : c.Wf) {b : BlockRow} (hb : b.blockIndex ∉ c.heights) :
    (c.addBlock b).Wf := by
  have hmem : ∀ {i : Int}, i ∈ c.heights → i ∈ (c.addBlock b).heights := by
    intro i hi
    have hi' : i ∈ c.blocks.map BlockRow.blockIndex := hi
    simp only [heights, ChainRows.addBlock, List.map_append, List.mem_append]
    exact .inl hi'
  refine { hc with
    heights_nodup := ?_
    tx_block := fun x hx => hmem (hc.tx_block x hx)
    mark_block := fun d hd m hm => hmem (hc.mark_block d hd m hm)
    undo_block := fun u hu => hmem (hc.undo_block u hu) }
  have hnd : (c.blocks.map BlockRow.blockIndex).Nodup := hc.heights_nodup
  simp only [heights, ChainRows.addBlock, List.map_append, List.map_cons, List.map_nil]
  rw [List.nodup_append]
  refine ⟨hnd, List.nodup_singleton _, ?_⟩
  rintro i hi j hj rfl
  have hib : i = b.blockIndex := by simpa using hj
  exact hb (hib ▸ hi)

/-- Rewriting dispensers row by row keeps the rows well formed when keys stay
    and a mark is kept, cleared or set to a stored block. -/
theorem Wf.mapDispensers (hc : c.Wf) {f : DispenserRow → DispenserRow}
    (hkey : ∀ d, (f d).key = d.key)
    (hmark : ∀ d ∈ c.dispensers, ∀ m, (f d).expiredBlockIndex = some m → m ∈ c.heights) :
    ({ c with dispensers := c.dispensers.map f } : ChainRows).Wf := by
  refine { hc with dispenser_tx := ?_, dispensers_nodup := ?_, mark_block := ?_ }
  · intro d' hd'
    obtain ⟨d, hd, rfl⟩ := List.mem_map.mp hd'
    have htx : (f d).txIndex = d.txIndex := congrArg Prod.fst (hkey d)
    exact htx ▸ hc.dispenser_tx d hd
  · show ((c.dispensers.map f).map DispenserRow.key).Nodup
    rw [map_key_of_key_eq hkey]
    exact hc.dispensers_nodup
  · intro d' hd' m hm
    obtain ⟨d, hd, rfl⟩ := List.mem_map.mp hd'
    exact hmark d hd m hm

theorem extendable_mark {sourceId : Option Nat} {d : DispenserRow}
    (h : extendable sourceId n d = true) :
    d.expiredBlockIndex = none ∨ d.expiredBlockIndex = some n := by
  simp only [extendable, Bool.and_eq_true, Bool.or_eq_true, decide_eq_true_eq] at h
  exact h.2

theorem Wf.recordUndo (hc : c.Wf) (hn : n ∈ c.heights) (sourceId : Option Nat) :
    (c.recordDispenserExtensionUndo sourceId n).Wf := by
  have hnew : ∀ u ∈ (c.recordDispenserExtensionUndo sourceId n).dispenserExtensionUndo,
      u ∈ c.dispenserExtensionUndo ∨
        ∃ d ∈ c.dispensers, extendable sourceId n d = true ∧ u = undoRow n d := by
    intro u hu
    rcases List.mem_append.mp hu with hold | hadd
    · exact .inl hold
    · obtain ⟨d, hd, rfl⟩ := List.mem_map.mp (List.mem_filter.mp hadd).1
      exact .inr ⟨d, (List.mem_filter.mp hd).1, (List.mem_filter.mp hd).2, rfl⟩
  refine { hc with undo_block := ?_, undo_mark := ?_ }
  · intro u hu
    rcases hnew u hu with hold | ⟨d, -, -, rfl⟩
    · exact hc.undo_block u hold
    · exact hn
  · intro u hu
    rcases hnew u hu with hold | ⟨d, -, hext, rfl⟩
    · exact hc.undo_mark u hold
    · exact extendable_mark hext

theorem extendRow_mark {e m : Int} {d : DispenserRow}
    (h : (extendRow e n d).expiredBlockIndex = some m) : d.expiredBlockIndex = some m := by
  unfold extendRow at h
  by_cases hn : d.expiredBlockIndex = some n
  · simp [hn] at h
  · simpa [hn] using h

theorem Wf.extend (hc : c.Wf) (sourceId : Option Nat) (e : Int) :
    (c.extendOpenDispenserExpiration sourceId e n).Wf := by
  refine hc.mapDispensers (f := extendIf sourceId e n) (fun d => extendIf_key sourceId e d) ?_
  intro d hd m hm
  unfold extendIf at hm
  split at hm
  · exact hc.mark_block d hd m (extendRow_mark hm)
  · exact hc.mark_block d hd m hm

theorem RowChange.wf (h : RowChange n c c') (hc : c.Wf) (hn : n ∈ c.heights) : c'.Wf := by
  cases h with
  | transaction x hblock hfresh =>
    have hsub : ∀ {i : Int}, i ∈ c.txIndexes →
        i ∈ ({ c with transactions := c.transactions ++ [x] } : ChainRows).txIndexes := by
      intro i hi
      have hi' : i ∈ c.transactions.map TransactionRow.txIndex := hi
      simp only [txIndexes, List.map_append, List.mem_append]
      exact .inl hi'
    refine { hc with
      txIndexes_nodup := ?_
      tx_block := ?_
      output_tx := fun o ho => hsub (hc.output_tx o ho)
      dispenser_tx := fun d hd => hsub (hc.dispenser_tx d hd) }
    -- the number is fresh, and its block is stored
    · have hnd : (c.transactions.map TransactionRow.txIndex).Nodup := hc.txIndexes_nodup
      simp only [txIndexes, List.map_append, List.map_cons, List.map_nil]
      rw [List.nodup_append]
      refine ⟨hnd, List.nodup_singleton _, ?_⟩
      rintro i hi j hj rfl
      have hix : i = x.txIndex := by simpa using hj
      exact hfresh (hix ▸ hi)
    · intro y hy
      rcases List.mem_append.mp hy with hold | hadd
      · exact hc.tx_block y hold
      · have hyx : y = x := by simpa using hadd
        subst hyx
        exact hblock ▸ hn
  | output o htx =>
    refine { hc with output_tx := ?_ }
    intro o' ho'
    rcases List.mem_append.mp ho' with hold | hadd
    · exact hc.output_tx o' hold
    · have : o' = o := by simpa using hadd
      subst this
      exact txIndexesOf_subset htx
  | dispenser d htx hfresh hopen =>
    refine { hc with dispenser_tx := ?_, dispensers_nodup := ?_, mark_block := ?_ }
    · intro d' hd'
      rcases List.mem_append.mp hd' with hold | hadd
      · exact hc.dispenser_tx d' hold
      · have : d' = d := by simpa using hadd
        subst this
        exact txIndexesOf_subset htx
    · show ((c.dispensers ++ [d]).map DispenserRow.key).Nodup
      rw [List.map_append, List.nodup_append]
      refine ⟨hc.dispensers_nodup, List.nodup_singleton _, ?_⟩
      rintro k hk k' hk' rfl
      have : k = d.key := by simpa using hk'
      exact hfresh (this ▸ hk)
    · intro d' hd' m hm
      rcases List.mem_append.mp hd' with hold | hadd
      · exact hc.mark_block d' hold m hm
      · have : d' = d := by simpa using hadd
        subst this
        simp [hopen] at hm
  | extend sourceId e => exact (hc.recordUndo hn sourceId).extend sourceId e
  | expire e =>
    refine hc.mapDispensers (fun d => expireRow_key e d) ?_
    intro d hd m hm
    -- a new mark is this block, which is stored
    unfold expireRow at hm
    split at hm
    · have hnm : n = m := by simpa using hm
      exact hnm ▸ hn
    · exact hc.mark_block d hd m hm

theorem RowChange.blocks_eq (h : RowChange n c c') : c'.blocks = c.blocks := by
  cases h <;> rfl

theorem heights_eq_of_blocks_eq (h : c'.blocks = c.blocks) : c'.heights = c.heights :=
  congrArg (List.map BlockRow.blockIndex) h

/-! ## Section 5: Deleting the block does not see its row changes -/

/-- What a rollback of block `n` makes of one dispenser row. -/
def revertRow (undo : List ExtensionUndoRow) (n : Int) (d : DispenserRow) : DispenserRow :=
  clearExpiry n (restoreRow undo n d)

@[simp] theorem revertRow_txIndex (undo : List ExtensionUndoRow) (d : DispenserRow) :
    (revertRow undo n d).txIndex = d.txIndex := by simp [revertRow]

@[simp] theorem revertRow_key (undo : List ExtensionUndoRow) (d : DispenserRow) :
    (revertRow undo n d).key = d.key := by simp [revertRow]

@[simp] theorem deleteBlock_blocks : (c.deleteBlock n).blocks =
    c.blocks.filter (fun b => b.blockIndex ≠ n) := rfl

@[simp] theorem deleteBlock_transactions : (c.deleteBlock n).transactions =
    c.transactions.filter (fun x => x.blockIndex ≠ n) := rfl

@[simp] theorem deleteBlock_transactionOutputs : (c.deleteBlock n).transactionOutputs =
    c.transactionOutputs.filter (fun o => o.txIndex ∉ c.txIndexesOf n) := rfl

@[simp] theorem deleteBlock_dispenserExtensionUndo : (c.deleteBlock n).dispenserExtensionUndo =
    c.dispenserExtensionUndo.filter (fun u => u.blockIndex ≠ n) := rfl

@[simp] theorem deleteBlock_dispensers : (c.deleteBlock n).dispensers =
    (c.dispensers.map (revertRow c.dispenserExtensionUndo n)).filter
      (fun d => d.txIndex ∉ c.txIndexesOf n) := by
  show ((c.dispensers.map (restoreRow _ n)).map (clearExpiry n)).filter _ = _
  rw [List.map_map]
  rfl

theorem restoreRow_of_none {undo : List ExtensionUndoRow} {d : DispenserRow}
    (h : undoOf undo n d = none) : restoreRow undo n d = d := by
  unfold restoreRow
  rw [h]

theorem restoreRow_of_some {undo : List ExtensionUndoRow} {d : DispenserRow}
    {u : ExtensionUndoRow} (h : undoOf undo n d = some u) :
    restoreRow undo n d = { d with
      expiration := u.priorExpiration
      expiredBlockIndex :=
        if u.priorExpiredBlockIndex = some u.blockIndex then none
        else u.priorExpiredBlockIndex } := by
  unfold restoreRow
  rw [h]

/-- A row is reverted by the undo row of its key, whatever else the table holds. -/
theorem revertRow_congr {undo undo' : List ExtensionUndoRow} {d : DispenserRow}
    (h : undoOf undo' n d = undoOf undo n d) : revertRow undo' n d = revertRow undo n d := by
  unfold revertRow restoreRow
  rw [h]

/-- The undo row of a dispenser goes by its key alone. -/
theorem undoOf_congr {undo : List ExtensionUndoRow} {d d' : DispenserRow} (h : d.key = d'.key) :
    undoOf undo n d = undoOf undo n d' := by
  have htx : d.txIndex = d'.txIndex := congrArg Prod.fst h
  have haddr : d.addressId = d'.addressId := congrArg Prod.snd h
  simp only [undoOf, htx, haddr]

theorem open_eq_self {d : DispenserRow} (h : d.expiredBlockIndex = none) :
    { d with expiredBlockIndex := none } = d := by
  rw [← h]

/-- An expiry mark of block `n` is not seen. -/
theorem revertRow_expireRow (undo : List ExtensionUndoRow) (e : Int) (d : DispenserRow) :
    revertRow undo n (expireRow n e d) = revertRow undo n d := by
  by_cases hexp : d.expiration < e ∧ d.expiredBlockIndex = none
  · have hrow : expireRow n e d = { d with expiredBlockIndex := some n } := if_pos hexp
    have hkey : undoOf undo n (expireRow n e d) = undoOf undo n d :=
      undoOf_congr (expireRow_key e d)
    unfold revertRow
    cases hundo : undoOf undo n d with
    | none =>
      rw [restoreRow_of_none (hkey.trans hundo), restoreRow_of_none hundo, hrow]
      simp [clearExpiry, hexp.2, open_eq_self hexp.2]
    | some u =>
      rw [restoreRow_of_some (hkey.trans hundo), restoreRow_of_some hundo, hrow]
  · have hrow : expireRow n e d = d := if_neg hexp
    rw [hrow]

/-- Once an undo row of its key is there, an extend is not seen. -/
theorem revertRow_extendRow_of_undo {undo : List ExtensionUndoRow} {d : DispenserRow}
    {u : ExtensionUndoRow} (e : Int) (h : undoOf undo n d = some u) :
    revertRow undo n (extendRow e n d) = revertRow undo n d := by
  have h' : undoOf undo n (extendRow e n d) = some u := (undoOf_congr (extendRow_key e d)).trans h
  unfold revertRow
  rw [restoreRow_of_some h, restoreRow_of_some h']
  rfl

/-- The undo row of a first extend puts the row back as the clear would have. -/
theorem revertRow_of_first_undo {undo undo' : List ExtensionUndoRow} {d : DispenserRow}
    (hmark : d.expiredBlockIndex = none ∨ d.expiredBlockIndex = some n)
    (hold : undoOf undo n d = none) (hnew : undoOf undo' n d = some (undoRow n d)) :
    revertRow undo' n d = revertRow undo n d := by
  unfold revertRow
  rw [restoreRow_of_none hold, restoreRow_of_some hnew]
  rcases hmark with hm | hm
  · simp [undoRow, clearExpiry, hm, open_eq_self hm]
  · simp [undoRow, clearExpiry, hm]

/-- The undo rows a source's extend adds, over the rows already there. -/
def newUndo (c : ChainRows) (sourceId : Option Nat) (n : Int) : List ExtensionUndoRow :=
  ((c.dispensers.filter (extendable sourceId n)).map (undoRow n)).filter
    (fun u => !hasUndo c.dispenserExtensionUndo u)

theorem mem_newUndo {sourceId : Option Nat} {u : ExtensionUndoRow} :
    u ∈ c.newUndo sourceId n ↔ ∃ d ∈ c.dispensers, extendable sourceId n d = true ∧
      u = undoRow n d ∧ hasUndo c.dispenserExtensionUndo u = false := by
  unfold newUndo
  constructor
  · intro h
    obtain ⟨hmap, hno⟩ := List.mem_filter.mp h
    obtain ⟨d, hd, rfl⟩ := List.mem_map.mp hmap
    obtain ⟨hmem, hext⟩ := List.mem_filter.mp hd
    exact ⟨d, hmem, hext, rfl, by simpa using hno⟩
  · rintro ⟨d, hd, hext, rfl, hno⟩
    refine List.mem_filter.mpr ⟨List.mem_map_of_mem (List.mem_filter.mpr ⟨hd, hext⟩), ?_⟩
    simp [hno]

/-- A new undo row found for a stored dispenser is that dispenser's own. -/
theorem newUndo_of_key (hc : c.Wf) {sourceId : Option Nat} {d : DispenserRow}
    (hd : d ∈ c.dispensers) {u : ExtensionUndoRow} (hu : u ∈ c.newUndo sourceId n)
    (htx : u.txIndex = d.txIndex) (haddr : u.addressId = d.addressId) :
    extendable sourceId n d = true ∧ u = undoRow n d := by
  obtain ⟨d', hd', hext, rfl, -⟩ := mem_newUndo.mp hu
  have hdd : d' = d := hc.dispenser_eq hd' hd (Prod.ext htx haddr)
  subst hdd
  exact ⟨hext, rfl⟩

/-- The undo row found for a dispenser after an extend of `sourceId`. -/
theorem undoOf_after_extend (hc : c.Wf) (sourceId : Option Nat) {d : DispenserRow}
    (hd : d ∈ c.dispensers) :
    undoOf (c.dispenserExtensionUndo ++ c.newUndo sourceId n) n d =
      (undoOf c.dispenserExtensionUndo n d).or
        (if extendable sourceId n d then some (undoRow n d) else none) := by
  unfold undoOf
  rw [List.find?_append]
  cases hold : undoOf c.dispenserExtensionUndo n d with
  | some u =>
    unfold undoOf at hold
    rw [hold]
    rfl
  | none =>
    unfold undoOf at hold
    rw [hold, Option.none_or, Option.none_or]
    -- no record of this block yet: one is written if the row is extended
    have hno : hasUndo c.dispenserExtensionUndo (undoRow n d) = false := by
      rw [hasUndo, List.any_eq_false]
      exact List.find?_eq_none.mp hold
    by_cases hext : extendable sourceId n d = true
    · rw [if_pos hext]
      have hmem : undoRow n d ∈ c.newUndo sourceId n := mem_newUndo.mpr ⟨d, hd, hext, rfl, hno⟩
      obtain ⟨u, hu⟩ : ∃ u, (c.newUndo sourceId n).find? (fun u =>
          u.blockIndex = n ∧ u.txIndex = d.txIndex ∧ u.addressId = d.addressId) = some u := by
        rw [← Option.isSome_iff_exists, List.find?_isSome]
        exact ⟨_, hmem, by simp [undoRow]⟩
      obtain ⟨-, htx, haddr⟩ :
          u.blockIndex = n ∧ u.txIndex = d.txIndex ∧ u.addressId = d.addressId := by
        simpa using List.find?_some hu
      rw [hu, (newUndo_of_key hc hd (List.mem_of_find?_eq_some hu) htx haddr).2]
    · rw [if_neg hext, List.find?_eq_none]
      intro u hu hkey
      obtain ⟨-, htx, haddr⟩ :
          u.blockIndex = n ∧ u.txIndex = d.txIndex ∧ u.addressId = d.addressId := by
        simpa using hkey
      exact hext (newUndo_of_key hc hd hu htx haddr).1

/-- An extend of block `n` is not seen. -/
theorem revertRow_extendIf (hc : c.Wf) (sourceId : Option Nat) (e : Int) {d : DispenserRow}
    (hd : d ∈ c.dispensers) :
    revertRow (c.dispenserExtensionUndo ++ c.newUndo sourceId n) n (extendIf sourceId e n d) =
      revertRow c.dispenserExtensionUndo n d := by
  have hafter := undoOf_after_extend (n := n) hc sourceId hd
  cases hold : undoOf c.dispenserExtensionUndo n d with
  | some u =>
    rw [hold, Option.some_or] at hafter
    have hkeep := revertRow_congr (hafter.trans hold.symm)
    unfold extendIf
    split
    · rw [revertRow_extendRow_of_undo e hafter, hkeep]
    · exact hkeep
  | none =>
    rw [hold, Option.none_or] at hafter
    by_cases hext : extendable sourceId n d = true
    · rw [if_pos hext] at hafter
      rw [extendIf, if_pos hext, revertRow_extendRow_of_undo e hafter]
      exact revertRow_of_first_undo (extendable_mark hext) hold hafter
    · rw [if_neg hext] at hafter
      rw [extendIf, if_neg hext]
      exact revertRow_congr (hafter.trans hold.symm)

/-- **Step lemma.** On well-formed rows a row change of block `n` is invisible
    to the deletion of block `n`. -/
theorem RowChange.deleteBlock_eq (h : RowChange n c c') (hc : c.Wf) :
    c'.deleteBlock n = c.deleteBlock n := by
  cases h with
  | transaction x hblock hfresh =>
    have hidx : ({ c with transactions := c.transactions ++ [x] } : ChainRows).txIndexesOf n =
        c.txIndexesOf n ++ [x.txIndex] := by
      simp [txIndexesOf, List.filter_append, hblock]
    ext1
    · rfl
    · simp [List.filter_append, hblock]
    -- the rows of before name an older transaction, so the delete leaves them
    · rw [deleteBlock_transactionOutputs, deleteBlock_transactionOutputs, hidx]
      refine List.filter_congr (fun o ho => ?_)
      have hne : o.txIndex ≠ x.txIndex := fun he => hfresh (he ▸ hc.output_tx o ho)
      simp [hne]
    · rw [deleteBlock_dispensers, deleteBlock_dispensers, hidx]
      refine List.filter_congr (fun d' hd' => ?_)
      obtain ⟨d, hd, rfl⟩ := List.mem_map.mp hd'
      have hne : d.txIndex ≠ x.txIndex := fun he => hfresh (he ▸ hc.dispenser_tx d hd)
      simp [hne]
    · rfl
  | output o htx =>
    ext1
    · rfl
    · rfl
    · have hidx : ({ c with transactionOutputs := c.transactionOutputs ++ [o] } :
          ChainRows).txIndexesOf n = c.txIndexesOf n := rfl
      rw [deleteBlock_transactionOutputs, deleteBlock_transactionOutputs, hidx]
      simp [List.filter_append, htx]
    · rfl
    · rfl
  | dispenser d htx hfresh hopen =>
    ext1
    · rfl
    · rfl
    · rfl
    · have hidx : ({ c with dispensers := c.dispensers ++ [d] } : ChainRows).txIndexesOf n =
          c.txIndexesOf n := rfl
      rw [deleteBlock_dispensers, deleteBlock_dispensers, hidx]
      simp [List.filter_append, htx]
    · rfl
  | extend sourceId e =>
    ext1
    · rfl
    · rfl
    · rfl
    · rw [deleteBlock_dispensers, deleteBlock_dispensers]
      show (((c.dispensers.map (extendIf sourceId e n)).map _).filter _) = _
      rw [List.map_map]
      refine congrArg _ (List.map_congr_left (fun d hd => ?_))
      exact revertRow_extendIf hc sourceId e hd
    · show (c.dispenserExtensionUndo ++ c.newUndo sourceId n).filter _ = _
      rw [List.filter_append]
      -- the new undo rows are of this block and go with it
      have hnone : (c.newUndo sourceId n).filter (fun u => u.blockIndex ≠ n) = [] := by
        rw [List.filter_eq_nil_iff]
        intro u hu
        obtain ⟨d, -, -, rfl, -⟩ := mem_newUndo.mp hu
        simp [undoRow]
      rw [hnone, List.append_nil]
      rfl
  | expire e =>
    ext1
    · rfl
    · rfl
    · rfl
    · rw [deleteBlock_dispensers, deleteBlock_dispensers]
      show (((c.dispensers.map (expireRow n e)).map _).filter _) = _
      rw [List.map_map]
      refine congrArg _ (List.map_congr_left (fun d _ => ?_))
      exact revertRow_expireRow c.dispenserExtensionUndo e d
    · rfl

/-- Deleting a block that has no rows but its own gives the rows before it. -/
theorem deleteBlock_addBlock (hc : c.Wf) {b : BlockRow} (hb : b.blockIndex = n)
    (hn : n ∉ c.heights) : (c.addBlock b).deleteBlock n = c := by
  have htx : (c.addBlock b).txIndexesOf n = [] := by
    have hnone : c.transactions.filter (fun x => x.blockIndex = n) = [] := by
      rw [List.filter_eq_nil_iff]
      intro x hx hxn
      have hxn' : x.blockIndex = n := by simpa using hxn
      exact hn (hxn' ▸ hc.tx_block x hx)
    show (c.transactions.filter _).map _ = []
    rw [hnone]
    rfl
  ext1
  · have hold : c.blocks.filter (fun b => b.blockIndex ≠ n) = c.blocks := by
      rw [List.filter_eq_self]
      intro b' hb'
      have hne : b'.blockIndex ≠ n := fun he => hn (he ▸ List.mem_map_of_mem hb')
      simpa using hne
    show (c.blocks ++ [b]).filter _ = _
    rw [List.filter_append, hold]
    simp [hb]
  · show c.transactions.filter _ = _
    rw [List.filter_eq_self]
    intro x hx
    have hne : x.blockIndex ≠ n := fun he => hn (he ▸ hc.tx_block x hx)
    simpa using hne
  · rw [deleteBlock_transactionOutputs, htx]
    simp [addBlock]
  · rw [deleteBlock_dispensers, htx]
    -- no undo row and no mark is of a height that is not stored, so nothing is reverted
    have hrow : ∀ d ∈ c.dispensers, revertRow c.dispenserExtensionUndo n d = d := by
      intro d hd
      have hno : undoOf c.dispenserExtensionUndo n d = none := by
        rw [undoOf, List.find?_eq_none]
        intro u hu hun
        have hun' : u.blockIndex = n ∧ u.txIndex = d.txIndex ∧ u.addressId = d.addressId := by
          simpa using hun
        exact hn (hun'.1 ▸ hc.undo_block u hu)
      have hmark : d.expiredBlockIndex ≠ some n := fun he => hn (hc.mark_block d hd n he)
      rw [revertRow, restoreRow_of_none hno, clearExpiry, if_neg hmark]
    show ((c.dispensers.map (revertRow c.dispenserExtensionUndo n)).filter _) = c.dispensers
    rw [List.map_congr_left hrow]
    simp
  · show c.dispenserExtensionUndo.filter _ = _
    rw [List.filter_eq_self]
    intro u hu
    have hne : u.blockIndex ≠ n := fun he => hn (he ▸ hc.undo_block u hu)
    simpa using hne

/-- **Run lemma.** A pass keeps the rows well formed, and deleting its block
    gives back the rows it started from. -/
theorem Pass.wf_and_deleteBlock (h : Pass n c c') (hc : c.Wf) :
    c'.Wf ∧ c'.deleteBlock n = c := by
  obtain ⟨b, hb, hn, hrun⟩ := h
  have hstart : (c.addBlock b).Wf := hc.addBlock (hb ▸ hn)
  have hnew : n ∈ (c.addBlock b).heights := by simp [heights, addBlock, hb]
  suffices hinv : c'.Wf ∧ n ∈ c'.heights ∧ c'.deleteBlock n = (c.addBlock b).deleteBlock n from
    ⟨hinv.1, hinv.2.2.trans (deleteBlock_addBlock hc hb hn)⟩
  induction hrun with
  | refl => exact ⟨hstart, hnew, rfl⟩
  | tail _ hstep ih =>
    obtain ⟨hwf, hmem, heq⟩ := ih
    refine ⟨hstep.wf hwf hmem, ?_, (hstep.deleteBlock_eq hwf).trans heq⟩
    rw [heights_eq_of_blocks_eq hstep.blocks_eq]
    exact hmem

/-- A pass adds one block. -/
theorem Pass.blocks_eq (h : Pass n c c') : ∃ b, c'.blocks = c.blocks ++ [b] ∧ b.blockIndex = n := by
  obtain ⟨b, hb, -, hrun⟩ := h
  refine ⟨b, ?_, hb⟩
  induction hrun with
  | refl => rfl
  | tail _ hstep ih => exact hstep.blocks_eq.trans ih

theorem Pass.mem_heights (h : Pass n c c') (i : Int) : i ∈ c'.heights ↔ i ∈ c.heights ∨ i = n := by
  obtain ⟨b, hblocks, rfl⟩ := h.blocks_eq
  simp [heights, hblocks]

/-! ## Section 6: Deletes and purges keep the rows well formed -/

theorem mem_heights_deleteBlock {i : Int} :
    i ∈ (c.deleteBlock n).heights ↔ i ∈ c.heights ∧ i ≠ n := by
  constructor
  · intro h
    obtain ⟨b, hb, rfl⟩ := List.mem_map.mp h
    obtain ⟨hmem, hne⟩ := List.mem_filter.mp hb
    exact ⟨List.mem_map_of_mem hmem, by simpa using hne⟩
  · rintro ⟨h, hne⟩
    obtain ⟨b, hb, rfl⟩ := List.mem_map.mp h
    exact List.mem_map_of_mem (List.mem_filter.mpr ⟨hb, by simpa using hne⟩)

theorem mem_txIndexes_deleteBlock (hc : c.Wf) {i : Int} :
    i ∈ (c.deleteBlock n).txIndexes ↔ i ∈ c.txIndexes ∧ i ∉ c.txIndexesOf n := by
  constructor
  · intro h
    obtain ⟨x, hx, rfl⟩ := List.mem_map.mp h
    obtain ⟨hmem, hne⟩ := List.mem_filter.mp hx
    refine ⟨List.mem_map_of_mem hmem, fun hof => ?_⟩
    obtain ⟨y, hy, hyn, hyx⟩ := mem_txIndexesOf.mp hof
    have : y = x := List.inj_on_of_nodup_map hc.txIndexes_nodup hy hmem hyx
    subst this
    simp [hyn] at hne
  · rintro ⟨h, hno⟩
    obtain ⟨x, hx, rfl⟩ := List.mem_map.mp h
    have hne : x.blockIndex ≠ n := fun he => hno (mem_txIndexesOf.mpr ⟨x, hx, he, rfl⟩)
    exact List.mem_map_of_mem (List.mem_filter.mpr ⟨hx, by simpa using hne⟩)

/-- A mark that survives the rollback of block `n` is an older block's. -/
theorem revertRow_mark (hundo : ∀ u ∈ c.dispenserExtensionUndo,
      u.priorExpiredBlockIndex = none ∨ u.priorExpiredBlockIndex = some u.blockIndex)
    {d : DispenserRow} {m : Int}
    (h : (revertRow c.dispenserExtensionUndo n d).expiredBlockIndex = some m) :
    d.expiredBlockIndex = some m ∧ m ≠ n := by
  unfold revertRow at h
  cases hfind : undoOf c.dispenserExtensionUndo n d with
  | none =>
    rw [restoreRow_of_none hfind, clearExpiry] at h
    by_cases hn : d.expiredBlockIndex = some n
    · simp [hn] at h
    · rw [if_neg hn] at h
      exact ⟨h, fun hmn => hn (hmn ▸ h)⟩
  | some u =>
    rw [restoreRow_of_some hfind] at h
    rcases hundo u (List.mem_of_find?_eq_some hfind) with hp | hp <;>
      simp [hp, clearExpiry] at h

theorem Wf.deleteBlock (hc : c.Wf) : (c.deleteBlock n).Wf where
  heights_nodup := hc.heights_nodup.sublist (List.Sublist.map _ List.filter_sublist)
  txIndexes_nodup := hc.txIndexes_nodup.sublist (List.Sublist.map _ List.filter_sublist)
  tx_block := by
    intro x hx
    obtain ⟨hmem, hne⟩ := List.mem_filter.mp hx
    exact mem_heights_deleteBlock.mpr ⟨hc.tx_block x hmem, by simpa using hne⟩
  output_tx := by
    intro o ho
    rw [deleteBlock_transactionOutputs] at ho
    obtain ⟨hmem, hno⟩ := List.mem_filter.mp ho
    exact (mem_txIndexes_deleteBlock hc).mpr ⟨hc.output_tx o hmem, by simpa using hno⟩
  dispenser_tx := by
    intro d' hd'
    rw [deleteBlock_dispensers] at hd'
    obtain ⟨hmap, hno⟩ := List.mem_filter.mp hd'
    obtain ⟨d, hd, rfl⟩ := List.mem_map.mp hmap
    rw [revertRow_txIndex] at hno ⊢
    exact (mem_txIndexes_deleteBlock hc).mpr ⟨hc.dispenser_tx d hd, by simpa using hno⟩
  dispensers_nodup := by
    rw [deleteBlock_dispensers]
    refine List.Nodup.sublist (List.Sublist.map _ List.filter_sublist) ?_
    rw [map_key_of_key_eq (fun d => revertRow_key _ d)]
    exact hc.dispensers_nodup
  mark_block := by
    intro d' hd' m hm
    rw [deleteBlock_dispensers] at hd'
    obtain ⟨d, hd, rfl⟩ := List.mem_map.mp (List.mem_filter.mp hd').1
    -- a mark that is left was set by another block
    obtain ⟨hold, hne⟩ := revertRow_mark hc.undo_mark hm
    exact mem_heights_deleteBlock.mpr ⟨hc.mark_block d hd m hold, hne⟩
  undo_block := by
    intro u hu
    obtain ⟨hmem, hne⟩ := List.mem_filter.mp hu
    exact mem_heights_deleteBlock.mpr ⟨hc.undo_block u hmem, by simpa using hne⟩
  undo_mark := fun u hu => hc.undo_mark u (List.mem_filter.mp hu).1

theorem Wf.purgeRows (hc : c.Wf) (safeHeight : Int) (graceFloor : Option Int) :
    (c.purgeRows safeHeight graceFloor).Wf :=
  { hc with
    dispenser_tx := fun d hd => hc.dispenser_tx d (List.mem_filter.mp hd).1
    dispensers_nodup := hc.dispensers_nodup.sublist (List.Sublist.map _ List.filter_sublist)
    mark_block := fun d hd => hc.mark_block d (List.mem_filter.mp hd).1 }

theorem Wf.purgeUndo (hc : c.Wf) (safeHeight : Int) : (c.purgeUndo safeHeight).Wf :=
  { hc with
    undo_block := fun u hu => hc.undo_block u (List.mem_filter.mp hu).1
    undo_mark := fun u hu => hc.undo_mark u (List.mem_filter.mp hu).1 }

theorem Wf.purge (hc : c.Wf) (safeHeight : Int) (graceFloor : Option Int) :
    (c.purgeExpiredDispensers safeHeight graceFloor).Wf := by
  unfold purgeExpiredDispensers
  split
  · exact hc
  · exact (hc.purgeRows safeHeight graceFloor).purgeUndo safeHeight

theorem purge_blocks (safeHeight : Int) (graceFloor : Option Int) :
    (c.purgeExpiredDispensers safeHeight graceFloor).blocks = c.blocks := by
  unfold purgeExpiredDispensers; split <;> rfl

end ChainRows

end XChainDecoder
