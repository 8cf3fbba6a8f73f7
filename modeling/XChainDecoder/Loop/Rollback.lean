import XChainDecoder.Ingest.Chained
import XChainDecoder.Loop.Turn

/-! # A rollback keeps the stored chain

    `verifyReorg` deletes only the stored tip, and only at the start height or
    above, whatever the node and the database answer. Along with the chain it keeps
    every fact that awaits, halts and deletes keep (`Rolls`); the loop picks the
    fact it needs where a rollback throws. -/

namespace XChainDecoder

open Proc Tables

variable {cfg : Config} {α : Type} {I : World cfg.weight → Prop}

/-! ## Section 1: What a rollback keeps -/

/-- A fact that every step of a rollback keeps. -/
structure Rolls (I : World cfg.weight → Prop) : Prop where
  steady  : ∀ w w', I w → Steady w w' → I w'
  deleted : ∀ blockIndex hash w w', I w → Deleted blockIndex hash w w' → I w'

/-- The stored chain with no transaction open, and the fact `I`. -/
def rolling (I : World cfg.weight → Prop) : Keep (World cfg.weight) where
  live    := fun w => Chained cfg.startBlockIndex w.db ∧ Idle w ∧ I w
  durable := fun w => Chained cfg.startBlockIndex w.db

theorem Tables.Chained.steady {w w' : World cfg.weight} (h : Chained cfg.startBlockIndex w.db)
    (hs : Steady w w') : Chained cfg.startBlockIndex w'.db :=
  h.of_prefix (by rw [hs.rows]; exact h.wf) (congrArg ChainRows.blocks hs.rows)
    (hs.hashes ▸ List.prefix_rfl)

/-- No transaction is open, and `blockIndex` is the stored tip. -/
structure AtTip (blockIndex : Int) (w : World cfg.weight) : Prop where
  idle : Idle w
  tip  : blockIndex = w.db.getLastBlockIndex

theorem AtTip.steady {blockIndex : Int} {w w' : World cfg.weight} (h : AtTip blockIndex w)
    (hs : Steady w w') (hidle : Idle w') : AtTip blockIndex w' := by
  refine ⟨hidle, h.tip.trans ?_⟩
  unfold getLastBlockIndex
  rw [hs.rows]

theorem Rolls.live (hI : Rolls I) {w w' : World cfg.weight} (h : (rolling I).live w)
    (hs : Steady w w') (hidle : Idle w') : (rolling I).live w' :=
  ⟨h.1.steady hs, hidle, hI.steady w w' h.2.2 hs⟩

/-- What is kept when a call ends as a steady step does. -/
theorem Rolls.ends (hI : Rolls I) {w w' : World cfg.weight} {r : Except (Stop Failure) α}
    (h : (rolling I).live w) (hs : Steady w w') (hidle : r ≠ .error .crashed → Idle w') :
    (rolling I).ends r w' := by
  match r with
  | .ok a               => exact hI.live h hs (hidle (by simp))
  | .error (.thrown e)  => exact hI.live h hs (hidle (by simp))
  | .error .unfinished  => exact hI.live h hs (hidle (by simp))
  | .error .crashed     => exact h.1.steady hs

theorem Rolls.error {β : Type} (hI : Rolls I) {w w' : World cfg.weight} {e : Stop Failure}
    (h : (rolling I).live w) (hs : Steady w w')
    (hidle : (.error e : Except (Stop Failure) α) ≠ .error .crashed → Idle w') :
    (rolling I).ends (.error e : Except (Stop Failure) β) w' :=
  Keep.ends_error (hI.ends h hs hidle)

theorem Steadily.maintains {m : Decoder cfg α} (hm : Steadily m) (hI : Rolls I) :
    Maintains (rolling I) Idle m (fun _ => Idle) := by
  intro env w h hw
  refine wp_mono (hm env w hw) ?_
  rintro r w' ⟨hs, hidle⟩
  exact ⟨hI.ends h hs hidle, fun a ha => hidle (by simp [ha])⟩

theorem Steadily.maintainsTip {m : Decoder cfg α} (hm : Steadily m) (hI : Rolls I)
    (blockIndex : Int) :
    Maintains (rolling I) (AtTip blockIndex) m (fun _ => AtTip blockIndex) := by
  intro env w h hw
  refine wp_mono (hm env w hw.idle) ?_
  rintro r w' ⟨hs, hidle⟩
  exact ⟨hI.ends h hs hidle, fun a ha => hw.steady hs (hidle (by simp [ha]))⟩

/-- Deleting the stored tip keeps the chain. -/
theorem Deleted.chained {blockIndex : Int} {hash : Option Hash} {w w' : World cfg.weight}
    (h : Deleted blockIndex hash w w') (hdb : Chained cfg.startBlockIndex w.db)
    (htip : blockIndex = w.db.getLastBlockIndex) (hge : cfg.startBlockIndex ≤ blockIndex) :
    Chained cfg.startBlockIndex w'.db ∧
      (cfg.startBlockIndex ≤ blockIndex - 1 → w'.db.getLastBlockIndex = blockIndex - 1) := by
  rw [h.db]
  have hchained := hdb.deleteTip cfg.start_nonneg htip hge hash
  refine ⟨hchained, fun hlow => ?_⟩
  have hheights : ∀ i, i ∈ (w.db.deleteBlockByIndex blockIndex hash).toChainRows.heights ↔
      i ∈ w.db.toChainRows.heights ∧ i ≠ blockIndex := by
    intro i
    rw [deleteBlockByIndex_toChainRows]
    exact ChainRows.mem_heights_deleteBlock
  have hpop := ChainRows.chainTip_pop hdb.interval cfg.start_nonneg htip hge hheights
  have hlast := ChainRows.getLastBlockIndex_eq (c := w.db.toChainRows) (.inl (htip ▸ hge))
  have hnew : (w.db.deleteBlockByIndex blockIndex hash).toChainRows.getLastBlockIndex =
      (w.db.deleteBlockByIndex blockIndex hash).toChainRows.chainTip cfg.startBlockIndex :=
    ChainRows.getLastBlockIndex_eq (.inr (by
      have : blockIndex = w.db.toChainRows.getLastBlockIndex := htip
      omega))
  have htip : blockIndex = w.db.toChainRows.getLastBlockIndex := htip
  show (w.db.deleteBlockByIndex blockIndex hash).toChainRows.getLastBlockIndex = _
  omega

theorem maintains_deleteWithRetry (hI : Rolls I) (aboveTip : Bool) {blockIndex : Int}
    (hge : cfg.startBlockIndex ≤ blockIndex) (hash : Option Hash) (walk : Walk) :
    Maintains (rolling I) (AtTip blockIndex)
      (deleteWithRetry aboveTip blockIndex hash walk : Decoder cfg Walk) (fun _ => Idle) := by
  intro env w h hw
  refine wp_mono (wp_deleteWithRetry aboveTip blockIndex hash walk hw.idle) ?_
  rintro r w' (⟨hdeleted, walk', rfl, -⟩ | ⟨hs, hidle, -⟩)
  · have hdb := (hdeleted.chained h.1 hw.tip hge).1
    exact ⟨⟨hdb, hdeleted.idle, hI.deleted _ _ _ _ h.2.2 hdeleted⟩, fun _ _ => hdeleted.idle⟩
  · exact ⟨hI.ends h hs hidle, fun a ha => hidle (by simp [ha])⟩

/-- The depth check and the delete behind it. -/
theorem maintains_assertAndDelete (hI : Rolls I) (aboveTip : Bool) {blockIndex : Int}
    (hge : cfg.startBlockIndex ≤ blockIndex) (hash : Option Hash) (priorDepth : Nat)
    (walk : Walk) :
    Maintains (rolling I) (AtTip blockIndex) (do
      let walk ← assertWithinSafeDepth blockIndex priorDepth walk
      if walk.haltError.isSome then return walk
      else deleteWithRetry aboveTip blockIndex hash walk : Decoder cfg Walk) (fun _ => Idle) := by
  refine maintains_bind
    ((steadily_assertWithinSafeDepth blockIndex priorDepth walk).maintainsTip hI blockIndex) ?_
  intro walk'
  refine maintains_ite (fun _ => maintains_pure (fun _ h => h.idle)) (fun _ => ?_)
  exact maintains_deleteWithRetry hI aboveTip hge hash walk'

theorem maintains_deleteForkedBlock (hI : Rolls I) {blockIndex : Int} (hge : cfg.startBlockIndex ≤ blockIndex)
    (hash : Option Hash) (priorDepth : Nat) (walk : Walk) :
    Maintains (rolling I) (AtTip blockIndex)
      (deleteForkedBlock blockIndex hash priorDepth walk : Decoder cfg Walk) (fun _ => Idle) :=
  maintains_bind ((steadily_requireReorgProof blockIndex hash walk.nodeTip).maintainsTip hI blockIndex)
    (fun _ => maintains_assertAndDelete hI false hge hash priorDepth walk)

theorem maintains_deleteAboveTipBlock (hI : Rolls I) {blockIndex : Int} (hge : cfg.startBlockIndex ≤ blockIndex)
    (hash : Option Hash) (nodeTip : Int) (priorDepth : Nat) (walk : Walk) :
    Maintains (rolling I) (AtTip blockIndex)
      (deleteAboveTipBlock blockIndex hash nodeTip priorDepth walk : Decoder cfg Walk)
      (fun _ => Idle) := by
  refine maintains_bind
    ((steadily_refuseOrHaltDeepGap blockIndex hash nodeTip priorDepth walk).maintainsTip hI blockIndex)
    (fun walk' => ?_)
  refine maintains_ite (fun _ => maintains_pure (fun _ h => h.idle)) (fun _ => ?_)
  refine maintains_bind
    ((steadily_requireReorgProof blockIndex hash (some nodeTip)).maintainsTip hI blockIndex)
    (fun _ => ?_)
  exact maintains_assertAndDelete hI true hge hash priorDepth walk'

/-- The doomed blocks lie one under the other, from `height` down to the start
    height or above. -/
def Falls (start : Int) : Int → List (Int × Option Hash) → Prop
  | _,      []            => True
  | height, block :: rest => block.1 = height ∧ start ≤ height ∧ Falls start (height - 1) rest

theorem Doomed.falls {weight : String → String} {t : Tables weight} {start height : Int}
    {doomed : List (Int × Option Hash)} (h : Doomed t height doomed)
    (hlow : (doomed.length : Int) ≤ height - start + 1) : Falls start height doomed := by
  induction doomed generalizing height with
  | nil => trivial
  | cons block rest ih =>
    rw [List.length_cons] at hlow
    exact ⟨h.1, by omega, ih h.2.2.2 (by omega)⟩

/-- The blocks of a halted walk go from the tip down. -/
theorem maintains_deleteProvenBlocks (hI : Rolls I) (doomed : List (Int × Option Hash)) :
    ∀ blocksDeleted : List (Int × Option Hash), Maintains (rolling I)
      (fun w => Idle w ∧ Falls cfg.startBlockIndex w.db.getLastBlockIndex doomed)
      (deleteProvenBlocks doomed blocksDeleted : Decoder cfg _) (fun _ => Idle) := by
  induction doomed with
  | nil => exact fun _ => maintains_pure (fun _ h => h.1)
  | cons block rest ih =>
    intro blocksDeleted env w h hw
    obtain ⟨hidle, hheight, hge, hrest⟩ := hw
    have hw : AtTip block.1 w := ⟨hidle, hheight⟩
    refine wp_seq (wp_proveReorgedAway block.2 hidle) ?_ ?_
    · rintro proof w₁ ⟨hs₁, -, hidle₁, hproof₁⟩
      have hidle₁ : Idle w₁ := hidle₁ (by simp)
      have h₁ : (rolling I).live w₁ := hI.live h hs₁ hidle₁
      by_cases hproven : proof.proven = true
      swap
      · rw [if_neg hproven]
        exact ⟨h₁, fun _ _ => hidle₁⟩
      rw [if_pos hproven]
      refine wp_seq (wp_deleteHaltedBlock block 10 hidle₁ (hproof₁ proof rfl hproven)) ?_ ?_
      · rintro gone w₂ (⟨w', hs', -, hdeleted, heq⟩ | ⟨hs₂, hidle₂, hne⟩)
        · obtain rfl : gone = true := by injection heq
          rw [if_pos rfl]
          -- the block below is the next stored tip
          have htip' : block.1 = w'.db.getLastBlockIndex := by
            rw [hheight]
            unfold getLastBlockIndex
            rw [hs'.rows, hs₁.rows]
          obtain ⟨hdb₂, hnext⟩ := hdeleted.chained (h₁.1.steady hs') htip'
            (hheight.symm ▸ hge)
          have hI₂ := hI.deleted _ _ _ _ (hI.steady _ _ h₁.2.2 hs') hdeleted
          refine ih _ env w₂ ⟨hdb₂, hdeleted.idle, hI₂⟩ ⟨hdeleted.idle, ?_⟩
          cases rest with
          | nil => trivial
          | cons next rest =>
            have hlast := hnext (by have := hrest.2.1; omega)
            rw [hlast, hheight]
            exact hrest
        · have hgone : gone ≠ true := fun h => hne (by rw [h])
          rw [if_neg hgone]
          exact ⟨hI.live h₁ hs₂ (hidle₂ (by simp)), fun _ _ => hidle₂ (by simp)⟩
      · rintro e w₂ (⟨_, _, _, _, heq⟩ | ⟨hs₂, hidle₂, -⟩)
        · cases heq
        · exact ⟨hI.error h₁ hs₂ hidle₂, nofun⟩
    · rintro e w₁ ⟨hs₁, -, hidle₁, -⟩
      exact ⟨hI.error h hs₁ hidle₁, nofun⟩

/-- What a halted walk has read falls from the stored tip. -/
theorem maintains_readHaltedWalk (hI : Rolls I) (tip : Option Int) (budget : Int) :
    Maintains (rolling I) Idle (readHaltedWalk tip budget : Decoder cfg HaltedRead)
      (fun read w => Idle w ∧ ∀ s d f, read = .forkAt s d f →
        Falls cfg.startBlockIndex w.db.getLastBlockIndex d) := by
  intro env w h hw
  refine wp_mono (wp_readHaltedWalk tip budget hw) ?_
  rintro r w' ⟨hs, hdb, hidle, hread⟩
  refine ⟨hI.ends h hs hidle, fun read hr => ⟨hidle (by simp [hr]), ?_⟩⟩
  intro s d f hfork
  obtain ⟨rfl, hdoomed, -, hlow⟩ := hread read hr s d f hfork
  rw [hdb]
  exact hdoomed.falls (by omega)

theorem maintains_finishHaltedWalk (hI : Rolls I) (priorDepth : Nat) (walk : Walk) :
    Maintains (rolling I) Idle (finishHaltedWalk priorDepth walk : Decoder cfg Walk)
      (fun _ => Idle) := by
  refine maintains_bind (maintains_readHaltedWalk hI walk.nodeTip _) (fun read => ?_)
  cases read with
  | stop why => exact maintains_pure (fun _ h => h.1)
  | forkAt storedTip doomed forkPoint =>
    refine maintains_ite (fun _ => maintains_pure (fun _ h => h.1)) (fun _ => ?_)
    refine maintains_bind ((maintains_deleteProvenBlocks hI doomed walk.blocksDeleted).weaken
      (fun _ _ h => ⟨h.1, h.2 _ _ _ rfl⟩) (fun _ _ h => h)) (fun c => ?_)
    exact maintains_pure (fun _ h => h)

/-- **A round of the walk** deletes the stored tip or nothing. -/
theorem maintains_walkRound (hI : Rolls I) (priorDepth : Nat) (walk : Walk) :
    Maintains (rolling I) Idle (walkRound priorDepth walk : Decoder cfg (Walk ⊕ Walk))
      (fun _ => Idle) := by
  refine maintains_ite (fun _ => ?_) (fun _ => ?_)
  · exact maintains_bind (maintains_finishHaltedWalk hI priorDepth walk)
      (fun _ => maintains_pure (fun _ h => h))
  -- the tip, as it was read
  refine maintains_bind (R := fun last w => Idle w ∧ ∀ i b, last = some (i, b) →
    i = w.db.getLastBlockIndex) ?_ (fun last => ?_)
  · intro env w h hw
    refine wp_mono (wp_readLastStoredBlock hw) ?_
    rintro r w' ⟨hs, hdb, hidle, hlast⟩
    refine ⟨hI.ends h hs hidle, fun last hr => ⟨hidle (by simp [hr]), ?_⟩⟩
    intro i b hib
    rw [hdb]
    exact (hlast last hr i b hib).1
  match last with
  | none                                    => exact maintains_pure (fun _ h => h.1)
  | some (lastBlockIndex, none)             => exact maintains_pure (fun _ h => h.1)
  | some (lastBlockIndex, some lastBlock)   =>
    refine Maintains.weaken (P := AtTip lastBlockIndex) ?_
      (fun w _ h => ⟨h.1, h.2 _ _ rfl⟩) (fun _ _ h => h)
    refine maintains_ite (fun _ => maintains_pure (fun _ h => h.idle)) (fun hlow => ?_)
    have hge : cfg.startBlockIndex ≤ lastBlockIndex := by omega
    cases walk.nodeTip.filter (fun nodeTip => decide (nodeTip < lastBlockIndex)) with
    | some nodeTip =>
      exact maintains_bind (maintains_deleteAboveTipBlock hI hge _ nodeTip priorDepth walk)
        (fun _ => maintains_pure (fun _ h => h))
    | none =>
      refine maintains_bind
        ((steadily_readNodeBlockHash lastBlockIndex).maintainsTip hI lastBlockIndex) (fun hash => ?_)
      cases hash with
      | none =>
        refine Maintains.weaken (P := Idle) ?_ (fun _ _ h => h.idle) (fun _ _ h => h)
        refine maintains_bind ((steadily_refreshReorgTip walk.nodeTip).maintains hI) (fun nodeTip => ?_)
        exact maintains_bind (steadily_sleep.maintains hI) (fun _ => maintains_pure (fun _ h => h))
      | some blockHashFromNode =>
        refine maintains_ite (fun _ => ?_) (fun _ => maintains_pure (fun _ h => h.idle))
        exact maintains_bind (maintains_deleteForkedBlock hI hge _ priorDepth walk)
          (fun _ => maintains_pure (fun _ h => h))

/-- **Main theorem.** A rollback keeps the stored chain, and every fact that its
    steps keep. -/
theorem maintains_verifyReorg (hI : Rolls I) (rounds : Nat) (nodeTip : Option Int) :
    Maintains (rolling I) Idle (verifyReorg rounds nodeTip : Decoder cfg Unit)
      (fun _ => Idle) := by
  refine maintains_bind ((steadily_query _).maintains hI) (fun halted => ?_)
  refine maintains_ite (fun _ => ?_) ?_
  · exact steadily_refuseHaltedRollback.maintains hI
  intro _
  refine maintains_bind ((steadily_attemptPriorDepth 3).maintains hI) (fun priorDepth => ?_)
  refine maintains_bind (R := fun _ => Idle) ?_ (fun walk => ?_)
  · refine maintains_iterate (R := fun _ => Idle) (fun walk => ?_) rounds _
    refine (maintains_walkRound hI priorDepth walk).weaken (fun _ _ h => h) ?_
    intro c w h
    cases c <;> exact h
  · exact (steadily_finishReorgRun walk).maintains hI

end XChainDecoder
