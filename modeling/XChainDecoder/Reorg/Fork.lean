import XChainDecoder.Reorg.Run

/-! # Where a rollback ends

    Against a node with a fixed active chain that also knows the headers of the
    stored blocks, and with a database that answers, `verifyReorg` rolls back to
    the common ancestor and stops there. A node that is merely behind makes it
    wait, with nothing deleted. -/

namespace XChainDecoder

variable {weight : String → String} {cfg : Config} {α β : Type} {env : Env}
  {w w' : World cfg.weight}

/-! ## Section 1: Calls that come through -/

/-- No await is fatal and no database call fails. -/
structure Fine (env : Env) : Prop where
  alive    : ∀ n, env.crashes n = false
  database : ∀ n, env.dbFails n = false

/-- Nothing has changed but the log, the clock and the halt fields. -/
structure Kept (w w' : World weight) : Prop where
  db    : w'.db = w.db
  idle  : Idle w'
  cache : w'.mem.forkProofCache = w.mem.forkProofCache

theorem Kept.refl {w : World weight} (hw : Idle w) : Kept w w := ⟨rfl, hw, rfl⟩

theorem Kept.trans {w w' w'' : World weight} (h : Kept w w') (h' : Kept w' w'') : Kept w w'' :=
  ⟨h'.db.trans h.db, h'.idle, h'.cache.trans h.cache⟩

theorem kept_tock {w : World weight} (hw : Idle w) (env : Env) : Kept w (w.tock env) :=
  ⟨tock_db env w, idle_tock hw, tock_forkProofCache env w⟩

/-- The call answers `a` and keeps the state. -/
def Returns (w : World weight) (a : α) (r : Except (Stop Failure) α) (w' : World weight) : Prop :=
  r = .ok a ∧ Kept w w'

theorem wp_returns_bind {m : Decoder cfg α} {f : α → Decoder cfg β} {a : α}
    {Q : Except (Stop Failure) β → World cfg.weight → Prop} (hm : m.wp env w (Returns w a))
    (hf : ∀ w', Kept w w' → (f a).wp env w' Q) : (m >>= f).wp env w Q := by
  refine Proc.wp_seq hm ?_ ?_
  · rintro a' w' ⟨heq, hkept⟩
    obtain rfl : a' = a := by injection heq
    exact hf w' hkept
  · rintro e w' ⟨heq, -⟩
    cases heq

theorem wp_returns_tryCatch {m : Decoder cfg α} {h : Failure → Decoder cfg α} {a : α}
    (hm : m.wp env w (Returns w a)) : (tryCatch m h).wp env w (Returns w a) := by
  refine Proc.wp_guard hm (fun _ _ h => h) ?_ ?_ ?_
  · rintro e w' ⟨heq, -⟩
    cases heq
  · rintro w' ⟨heq, -⟩
    cases heq
  · rintro w' ⟨heq, -⟩
    cases heq

theorem wp_returns_map {m : Decoder cfg α} (f : α → β) {a : α}
    (hm : m.wp env w (Returns w a)) : (f <$> m).wp env w (Returns w (f a)) :=
  wp_returns_bind hm (fun _ hkept => ⟨rfl, hkept⟩)

section Calls

variable (hfine : Fine env)

include hfine

theorem wp_answered_fine {f : Env → Nat → α}
    {Q : Except (Stop Failure) α → World cfg.weight → Prop}
    (hok : Q (.ok (f env w.tick)) (w.tock env)) : (answered f : Decoder cfg α).wp env w Q := by
  have halive := hfine.alive w.tick
  unfold answered Proc.wp
  simpa [halive] using hok

variable (hw : Idle w)

include hw

theorem wp_answered_returns (f : Env → Nat → α) :
    (answered f : Decoder cfg α).wp env w (Returns w (f env w.tick)) :=
  wp_answered_fine hfine ⟨rfl, kept_tock hw env⟩

theorem wp_query_returns (f : Tables cfg.weight → α) :
    (query f : Decoder cfg α).wp env w (Returns w (f w.db)) := by
  refine wp_returns_bind (wp_answered_returns hfine hw Env.dbFails) (fun w₁ hkept => ?_)
  rw [hfine.database, if_neg (by simp), Proc.wp_bind, Proc.wp_get, Proc.continuesWith_ok,
    Proc.wp_pure, hkept.idle.view, hkept.db]
  exact ⟨rfl, hkept⟩

theorem wp_getBlockHash_returns {height : Int} {hash : Hash}
    (hhash : ∀ n, Hash.ofAnswer (env.getblockhash n height) = some hash) :
    (getBlockHash height : Decoder cfg Hash).wp env w (Returns w hash) := by
  refine wp_returns_bind (wp_answered_returns hfine hw _) (fun w₁ hkept => ?_)
  rw [hhash, Proc.wp_bind, wp_observe, Proc.continuesWith_ok]
  exact ⟨rfl, hkept.db, hkept.idle, hkept.cache⟩

theorem wp_readLastStoredBlock_returns :
    (readLastStoredBlock : Decoder cfg (Option (Int × Option Block))).wp env w
      (Returns w (some (w.db.getLastBlockIndex,
        w.db.getBlockByIndex w.db.getLastBlockIndex))) := by
  refine wp_returns_tryCatch ?_
  refine wp_returns_bind (wp_query_returns hfine hw Tables.getLastBlockIndex) ?_
  intro w₁ hkept₁
  refine wp_returns_bind (wp_query_returns hfine hkept₁.idle _) ?_
  intro w₂ hkept₂
  rw [hkept₁.db]
  exact ⟨rfl, hkept₁.trans hkept₂⟩

/-- The delete of a block comes through. -/
theorem wp_deleteBlockByIndex_fine (blockIndex : Int) (hash : Option Hash) :
    (deleteBlockByIndex blockIndex hash : Decoder cfg Unit).wp env w (fun r w' =>
      r = .ok () ∧ w'.db = w.db.deleteBlockByIndex blockIndex hash ∧ Idle w' ∧
        w'.mem.forkProofCache = w.mem.forkProofCache) := by
  unfold deleteBlockByIndex beginTransaction
  have hnone : w.txn = none := hw
  rw [Proc.wp_bind, Proc.wp_bind, Proc.wp_get, Proc.continuesWith_ok, hnone]
  refine Proc.wp_bind.mpr (wp_answered_fine hfine ?_)
  rw [Proc.continuesWith_ok, hfine.database, if_neg (by simp), Proc.wp_modify,
    Proc.continuesWith_ok, Proc.wp_bind, Proc.wp_get, Proc.continuesWith_ok]
  refine Proc.wp_tryCatch.mpr (Proc.wp_bind.mpr (wp_answered_fine hfine ?_))
  rw [Proc.continuesWith_ok, hfine.database, if_neg (by simp), Proc.wp_bind, Proc.wp_modify,
    Proc.continuesWith_ok]
  -- the statements ran inside the transaction; the commit makes them the database
  generalize hw₁ : ({ w.tock env with txn := some (w.tock env).db }.tock env) = w₁
  have htxn₁ : w₁.txn = some w.db := by rw [← hw₁, tock_txn, tock_db]
  have hcache₁ : w₁.mem.forkProofCache = w.mem.forkProofCache := by
    rw [← hw₁, tock_forkProofCache, tock_forkProofCache]
  rw [World.write_of_some htxn₁]
  unfold commitTransaction
  rw [Proc.wp_bind, Proc.wp_bind, Proc.wp_get, Proc.continuesWith_ok]
  refine Proc.wp_bind.mpr (wp_answered_fine hfine ?_)
  rw [Proc.continuesWith_ok, hfine.database, if_neg (by simp), Proc.wp_bind, Proc.wp_modify,
    Proc.continuesWith_ok, Proc.wp_pure, Proc.continuesWith_ok, if_pos rfl, wp_observe,
    Proc.handledBy_ok]
  exact ⟨rfl, rfl, rfl, (tock_forkProofCache env _).trans hcache₁⟩

end Calls

/-! ## Section 2: An honest node -/

/-- A hash of the node's active chain, up to its tip. -/
def OnActiveChain (chain : Int → Hash) (nodeTip : Int) (hash : Hash) : Prop :=
  ∃ h, 0 ≤ h ∧ h ≤ nodeTip ∧ chain h = hash

/-- A node with the fixed active chain `chain` up to `nodeTip`, that knows the
    headers of the blocks stored in `t`. -/
structure Honest (env : Env) (chain : Int → Hash) (nodeTip : Int) (t : Tables weight) :
    Prop where
  blockHash : ∀ n h, 0 ≤ h → h ≤ nodeTip →
    Hash.ofAnswer (env.getblockhash n h) = some (chain h)
  active    : ∀ n hash, OnActiveChain chain nodeTip hash →
    ∃ confirmations, 0 ≤ confirmations ∧
      env.getblockheader n (some hash) = .header (some confirmations)
  reorged   : ∀ n h hash, t.hashAt h = some hash → ¬OnActiveChain chain nodeTip hash →
    env.getblockheader n (some hash) = .header (some (-1))

/-- The process has cached no answer about a stored block that the node reorged
    away: this node never gave an unproven one. -/
def NoStaleAnswer (chain : Int → Hash) (nodeTip : Int) (t : Tables weight) (mem : Memory) : Prop :=
  ∀ e, mem.forkProofCache = some e → ∀ h hash, t.hashAt h = some hash →
    ¬OnActiveChain chain nodeTip hash → e.blockHash ≠ some hash

/-- Asked about a stored block off its chain, the node proves it. -/
theorem wp_requireReorgProof_reorged (hfine : Fine env) (hw : Idle w) {chain : Int → Hash}
    {nodeTip : Int} {t : Tables cfg.weight} (hhonest : Honest env chain nodeTip t)
    (hstale : NoStaleAnswer chain nodeTip t w.mem) {h : Int} {hash : Hash}
    (hstored : t.hashAt h = some hash) (hoff : ¬OnActiveChain chain nodeTip hash)
    (blockIndex : Int) (tip : Option Int) :
    (requireReorgProof blockIndex (some hash) tip : Decoder cfg Unit).wp env w (fun r w' =>
      r = .ok () ∧ w'.db = w.db ∧ Idle w' ∧ NoStaleAnswer chain nodeTip t w'.mem) := by
  unfold requireReorgProof proveForkReorgedAway
  rw [Proc.wp_bind, Proc.wp_bind, wp_dateNow, Proc.continuesWith_ok, Proc.wp_bind, Proc.wp_get,
    Proc.continuesWith_ok]
  have hmiss : w.mem.forkProofCache.filter
      (fun e => e.stands tip (some hash) (env.now w.tick)) = none := by
    rw [Option.filter_eq_none_iff]
    intro e he hstands
    refine hstale e he h hash hstored hoff ?_
    unfold ForkProofEntry.stands at hstands
    simp only [Bool.and_eq_true, decide_eq_true_eq] at hstands
    exact hstands.1.2
  rw [hmiss]
  dsimp only
  unfold proveReorgedAway getBlockHeader
  rw [Proc.wp_bind, Proc.wp_bind, Proc.wp_bind]
  refine wp_answered_fine hfine ?_
  rw [Proc.continuesWith_ok, Proc.wp_bind, wp_observe, Proc.continuesWith_ok, Proc.wp_pure,
    Proc.continuesWith_ok, Proc.wp_pure, Proc.continuesWith_ok,
    hhonest.reorged w.tick h hash hstored hoff]
  refine ⟨rfl, tock_db env w, idle_tock hw, ?_⟩
  intro e he
  cases he

/-- Where the stored block at the node's tip is off its chain, the node proves it. -/
theorem wp_requireAboveTipForkProof_reorged (hfine : Fine env) (hw : Idle w) {chain : Int → Hash}
    {nodeTip : Int} {t : Tables cfg.weight} (hhonest : Honest env chain nodeTip t)
    (hstale : NoStaleAnswer chain nodeTip t w.mem) (hnonneg : 0 ≤ nodeTip) {boundaryHash : Hash}
    (hat : w.db.hashAt nodeTip = some boundaryHash)
    (hstored : t.hashAt nodeTip = some boundaryHash)
    (hoff : ¬OnActiveChain chain nodeTip boundaryHash) (blockIndex : Int) (hash : Option Hash) :
    (requireAboveTipForkProof blockIndex hash nodeTip : Decoder cfg (Option Hash)).wp env w
      (fun r w' => r = .ok (some boundaryHash) ∧ w'.db = w.db ∧ Idle w' ∧
        NoStaleAnswer chain nodeTip t w'.mem) := by
  have hdiffer : boundaryHash ≠ chain nodeTip := by
    intro heq
    exact hoff ⟨nodeTip, hnonneg, Int.le_refl _, heq.symm⟩
  refine wp_returns_bind (wp_returns_tryCatch (wp_query_returns hfine hw _)) ?_
  intro w₁ hkept₁
  have hboundary : (w.db.getBlockByIndex nodeTip).bind Block.blockHash = some boundaryHash := hat
  rw [hboundary]
  refine wp_returns_bind (wp_returns_tryCatch (wp_getBlockHash_returns hfine hkept₁.idle
    (fun n => hhonest.blockHash n nodeTip hnonneg (Int.le_refl _)))) ?_
  intro w₂ hkept₂
  rw [if_neg hdiffer]
  have hkept := hkept₁.trans hkept₂
  refine Proc.wp_seq (wp_requireReorgProof_reorged hfine hkept.idle hhonest
    (fun e he => hstale e (hkept.cache ▸ he)) hstored hoff nodeTip (some nodeTip)) ?_ ?_
  · rintro _ w₃ ⟨-, hdb₃, h₃⟩
    exact ⟨rfl, hdb₃.trans hkept.db, h₃⟩
  · rintro e w₃ ⟨heq, -⟩
    cases heq

/-! ## Section 3: The way down to the fork point -/

/-- The stored chain and the node's chain share the blocks up to `fork`, and no
    stored block above it is on the node's chain. -/
structure ForkAt (cfg : Config) (t : Tables cfg.weight) (chain : Int → Hash) (nodeTip fork : Int) :
    Prop where
  low    : cfg.startBlockIndex - 1 ≤ fork
  node   : fork ≤ nodeTip
  tip    : fork ≤ t.chainTip cfg.startBlockIndex
  common : ∀ h, cfg.startBlockIndex ≤ h → h ≤ fork → t.hashAt h = some (chain h)
  apart  : ∀ h hash, fork < h → t.hashAt h = some hash → ¬OnActiveChain chain nodeTip hash

/-- Between two rounds: what is left of `t` is its blocks up to some tip at or
    above the fork point, and the walk has counted the rest. -/
structure OnFork (cfg : Config) (t : Tables cfg.weight) (chain : Int → Hash) (nodeTip fork : Int)
    (walk : Walk) (w : World cfg.weight) : Prop where
  idle     : Idle w
  stale    : NoStaleAnswer chain nodeTip t w.mem
  nodeTip  : walk.nodeTip = some nodeTip
  noHalt   : walk.haltError = none
  blocks   : w.db.blocks =
    t.blocks.filter (fun b => decide (b.blockIndex ≤ w.db.chainTip cfg.startBlockIndex))
  hashes   : w.db.indexTransactions = t.indexTransactions
  interval : w.db.toChainRows.Interval cfg.startBlockIndex
  above    : fork ≤ w.db.chainTip cfg.startBlockIndex
  counted  : (walk.blocksDeleted.length : Int) =
    t.chainTip cfg.startBlockIndex - w.db.chainTip cfg.startBlockIndex

section Fork

variable {t : Tables cfg.weight} {chain : Int → Hash} {nodeTip fork : Int} {walk : Walk}

/-- The blocks that are left read as they did. -/
theorem OnFork.hashAt_eq (h : OnFork cfg t chain nodeTip fork walk w) {i : Int}
    (hi : i ≤ w.db.chainTip cfg.startBlockIndex) : w.db.hashAt i = t.hashAt i := by
  unfold Tables.hashAt Tables.getBlockByIndex
  rw [h.blocks, h.hashes, List.find?_filter]
  congr 2
  apply congrArg (fun p => List.find? p t.blocks)
  funext b
  by_cases hb : b.blockIndex = i
  · simp [hb, hi]
  · simp [hb]

theorem OnFork.of_kept (h : OnFork cfg t chain nodeTip fork walk w) (hdb : w'.db = w.db)
    (hidle : Idle w') (hstale : NoStaleAnswer chain nodeTip t w'.mem) :
    OnFork cfg t chain nodeTip fork walk w' where
  idle     := hidle
  stale    := hstale
  nodeTip  := h.nodeTip
  noHalt   := h.noHalt
  blocks   := by rw [hdb]; exact h.blocks
  hashes   := by rw [hdb]; exact h.hashes
  interval := by rw [hdb]; exact h.interval
  above    := by rw [hdb]; exact h.above
  counted  := by rw [hdb]; exact h.counted

theorem OnFork.kept (h : OnFork cfg t chain nodeTip fork walk w) (hkept : Kept w w') :
    OnFork cfg t chain nodeTip fork walk w' :=
  h.of_kept hkept.db hkept.idle (fun e he => h.stale e (hkept.cache ▸ he))

/-- A stored tip above the fork point is off the node's chain, under a known hash. -/
theorem OnFork.tip_reorged (h : OnFork cfg t chain nodeTip fork walk w) (hhashed : t.Hashed)
    (hfork : ForkAt cfg t chain nodeTip fork) (hlt : fork < w.db.chainTip cfg.startBlockIndex) :
    w.db.getLastBlockIndex = w.db.chainTip cfg.startBlockIndex ∧
    ∃ block hash, w.db.getBlockByIndex w.db.getLastBlockIndex = some block ∧
      block.blockHash = some hash ∧
      t.hashAt (w.db.chainTip cfg.startBlockIndex) = some hash ∧
      ¬OnActiveChain chain nodeTip hash := by
  have hlow := hfork.low
  have hlast : w.db.getLastBlockIndex = w.db.chainTip cfg.startBlockIndex :=
    ChainRows.getLastBlockIndex_eq (c := w.db.toChainRows) (.inr (by omega))
  have hmem : w.db.getLastBlockIndex ∈ w.db.heights := by
    refine (h.interval _).mpr ⟨?_, ?_⟩ <;> omega
  obtain ⟨block, hblock⟩ :=
    Option.isSome_iff_exists.mp (Tables.getBlockByIndex_isSome.mpr hmem)
  have hhashed' : w.db.Hashed := by
    intro b hb
    rw [h.hashes]
    exact hhashed b (List.mem_of_mem_filter (h.blocks ▸ hb))
  obtain ⟨hash, hhash⟩ := hhashed'.of_getBlockByIndex hblock
  have hstored : t.hashAt (w.db.chainTip cfg.startBlockIndex) = some hash := by
    rw [← h.hashAt_eq (Int.le_refl _), ← hlast, Tables.hashAt, hblock]
    exact hhash
  exact ⟨hlast, block, hash, hblock, hhash, hstored, hfork.apart _ hash hlt hstored⟩

variable (hfine : Fine env) (hhonest : Honest env chain nodeTip t)
  (hdepth : t.chainTip cfg.startBlockIndex - fork ≤ cfg.safeDepth)

/-- What a round that deletes comes to: one block fewer. -/
def OneLess (cfg : Config) (t : Tables cfg.weight) (chain : Int → Hash) (nodeTip fork tip : Int)
    (r : Except (Stop Failure) Walk) (w' : World cfg.weight) : Prop :=
  ∃ walk', r = .ok walk' ∧ OnFork cfg t chain nodeTip fork walk' w' ∧
    w'.db.chainTip cfg.startBlockIndex = tip - 1

include hfine hdepth

/-- With the proof in hand, the depth check passes and the delete comes through. -/
theorem OnFork.wp_assertAndDelete (h : OnFork cfg t chain nodeTip fork walk w)
    (hfork : ForkAt cfg t chain nodeTip fork)
    (hlt : fork < w.db.chainTip cfg.startBlockIndex) (aboveTip : Bool) {blockIndex : Int}
    (htip : blockIndex = w.db.getLastBlockIndex) (hash : Option Hash) :
    (do
      let walk ← assertWithinSafeDepth blockIndex 0 walk
      if walk.haltError.isSome then return walk
      else deleteWithRetry aboveTip blockIndex hash walk : Decoder cfg Walk).wp env w
      (OneLess cfg t chain nodeTip fork (w.db.chainTip cfg.startBlockIndex)) := by
  have hcounted := h.counted
  have hlow := hfork.low
  unfold assertWithinSafeDepth
  rw [h.noHalt, if_neg (by simp), if_neg (by omega), Proc.wp_bind, Proc.wp_pure,
    Proc.continuesWith_ok, h.noHalt, if_neg (by simp)]
  unfold deleteWithRetry
  refine Proc.wp_tryCatch.mpr (Proc.wp_seq (wp_deleteBlockByIndex_fine hfine h.idle _ _) ?_ ?_)
  · rintro _ w' ⟨-, hdb, hidle, hcache⟩
    have hheights : ∀ i, i ∈ w'.db.heights ↔ i ∈ w.db.heights ∧ i ≠ blockIndex := by
      intro i
      rw [hdb, Tables.deleteBlockByIndex_toChainRows]
      exact ChainRows.mem_heights_deleteBlock
    -- the tip is gone, and what is left is still the chain up to the new one
    have hlast : w.db.getLastBlockIndex = w.db.chainTip cfg.startBlockIndex :=
      ChainRows.getLastBlockIndex_eq (c := w.db.toChainRows) (.inr (by omega))
    have hge : cfg.startBlockIndex ≤ blockIndex := by omega
    have htip' := ChainRows.chainTip_pop h.interval cfg.start_nonneg htip hge hheights
    have hnext : OnFork cfg t chain nodeTip fork { walk with
        retryCount := 0, blocksDeleted := walk.blocksDeleted ++ [(blockIndex, hash)] } w' :=
      { idle     := hidle
        stale    := fun e he => h.stale e (hcache ▸ he)
        nodeTip  := h.nodeTip
        noHalt   := h.noHalt
        blocks   := by
          rw [htip', hdb, Tables.deleteBlockByIndex_blocks, h.blocks, List.filter_filter]
          refine List.filter_congr (fun b _ => ?_)
          rw [Bool.eq_iff_iff]
          simp only [Bool.and_eq_true, decide_eq_true_eq, ne_eq]
          omega
        hashes   := by rw [hdb, Tables.deleteBlockByIndex_indexTransactions]; exact h.hashes
        interval := h.interval.pop cfg.start_nonneg htip hge hheights
        above    := by rw [htip']; omega
        counted  := by
          rw [htip', List.length_append, List.length_singleton]
          omega }
    exact ⟨_, rfl, hnext, htip'⟩
  · rintro e w' ⟨heq, -⟩
    cases heq

include hhonest

/-- A tip at or below the node's is compared by hash, and proven. -/
theorem OnFork.wp_deleteForkedBlock (h : OnFork cfg t chain nodeTip fork walk w)
    (hfork : ForkAt cfg t chain nodeTip fork)
    (hlt : fork < w.db.chainTip cfg.startBlockIndex) {blockIndex : Int} {hash : Hash}
    (htip : blockIndex = w.db.getLastBlockIndex)
    (hstored : t.hashAt (w.db.chainTip cfg.startBlockIndex) = some hash)
    (hoff : ¬OnActiveChain chain nodeTip hash) :
    (deleteForkedBlock blockIndex (some hash) 0 walk : Decoder cfg Walk).wp env w
      (OneLess cfg t chain nodeTip fork (w.db.chainTip cfg.startBlockIndex)) := by
  refine Proc.wp_seq (wp_requireReorgProof_reorged hfine h.idle hhonest h.stale hstored hoff
    blockIndex walk.nodeTip) ?_ ?_
  · rintro _ w₁ ⟨-, hdb₁, hidle₁, hstale₁⟩
    have h₁ := h.of_kept hdb₁ hidle₁ hstale₁
    rw [← hdb₁] at hlt htip ⊢
    exact h₁.wp_assertAndDelete hfine hdepth hfork hlt false htip (some hash)
  · rintro e w₁ ⟨heq, -⟩
    cases heq

/-- A tip above the node's is proven at the node's own tip first. -/
theorem OnFork.wp_deleteAboveTipBlock (h : OnFork cfg t chain nodeTip fork walk w)
    (hhashed : t.Hashed) (hfork : ForkAt cfg t chain nodeTip fork) (hahead : fork < nodeTip)
    (habove : nodeTip < w.db.chainTip cfg.startBlockIndex) {blockIndex : Int} {hash : Hash}
    (htip : blockIndex = w.db.getLastBlockIndex)
    (hstored : t.hashAt (w.db.chainTip cfg.startBlockIndex) = some hash)
    (hoff : ¬OnActiveChain chain nodeTip hash) :
    (deleteAboveTipBlock blockIndex (some hash) nodeTip 0 walk : Decoder cfg Walk).wp env w
      (OneLess cfg t chain nodeTip fork (w.db.chainTip cfg.startBlockIndex)) := by
  have hlow := hfork.low
  have hnonneg := cfg.start_nonneg
  have hcounted := h.counted
  have hlast : w.db.getLastBlockIndex = w.db.chainTip cfg.startBlockIndex :=
    ChainRows.getLastBlockIndex_eq (c := w.db.toChainRows) (.inr (by omega))
  -- the stored block at the node's tip is off the node's chain as well
  have hmem : nodeTip ∈ w.db.heights := by
    refine (h.interval _).mpr ⟨?_, ?_⟩ <;> omega
  obtain ⟨boundary, hboundary⟩ :=
    Option.isSome_iff_exists.mp (Tables.getBlockByIndex_isSome.mpr hmem)
  have hhashed' : w.db.Hashed := by
    intro b hb
    rw [h.hashes]
    exact hhashed b (List.mem_of_mem_filter (h.blocks ▸ hb))
  obtain ⟨boundaryHash, hboundaryHash⟩ := hhashed'.of_getBlockByIndex hboundary
  have hboundaryAt : w.db.hashAt nodeTip = some boundaryHash := by
    rw [Tables.hashAt, hboundary]
    exact hboundaryHash
  have hboundaryStored : t.hashAt nodeTip = some boundaryHash := by
    rw [← h.hashAt_eq (by omega)]
    exact hboundaryAt
  have hboundaryOff := hfork.apart nodeTip boundaryHash hahead hboundaryStored
  have hgap : (refuseOrHaltDeepGap blockIndex (some hash) nodeTip 0 walk : Decoder cfg Walk).wp
      env w (fun r w' => r = .ok walk ∧ w'.db = w.db ∧ Idle w' ∧
        NoStaleAnswer chain nodeTip t w'.mem) := by
    refine Proc.wp_seq (wp_requireAboveTipForkProof_reorged hfine h.idle hhonest h.stale
      (by omega) hboundaryAt hboundaryStored hboundaryOff blockIndex (some hash)) ?_ ?_
    · rintro _ w₁ ⟨-, h₁⟩
      have htip' := hfork.tip
      dsimp only
      rw [if_pos (by omega)]
      exact ⟨rfl, h₁⟩
    · rintro e w₁ ⟨heq, -⟩
      cases heq
  refine Proc.wp_seq hgap ?_ ?_
  · rintro walk₁ w₁ ⟨heq, hdb₁, hidle₁, hstale₁⟩
    obtain rfl : walk₁ = walk := by injection heq
    rw [if_neg (by simp [h.noHalt])]
    have h₁ := h.of_kept hdb₁ hidle₁ hstale₁
    refine Proc.wp_seq (wp_requireReorgProof_reorged hfine h₁.idle hhonest h₁.stale hstored hoff
      blockIndex (some nodeTip)) ?_ ?_
    · rintro _ w₂ ⟨-, hdb₂, hidle₂, hstale₂⟩
      have h₂ := h₁.of_kept hdb₂ hidle₂ hstale₂
      have hdb : w₂.db = w.db := hdb₂.trans hdb₁
      have hlt : fork < w.db.chainTip cfg.startBlockIndex := by omega
      rw [← hdb] at hlt htip ⊢
      exact h₂.wp_assertAndDelete hfine hdepth hfork hlt true htip (some hash)
    · rintro e w₂ ⟨heq, -⟩
      cases heq
  · rintro e w₁ ⟨heq, -⟩
    cases heq

/-- One round of the walk: a delete above the fork point, the end at it. -/
theorem OnFork.wp_walkRound (h : OnFork cfg t chain nodeTip fork walk w) (hhashed : t.Hashed)
    (hfork : ForkAt cfg t chain nodeTip fork)
    (hahead : fork < nodeTip ∨ fork = t.chainTip cfg.startBlockIndex) :
    (walkRound 0 walk : Decoder cfg (Walk ⊕ Walk)).wp env w
      (Proc.roundEnds
        (fun walk' w' => OnFork cfg t chain nodeTip fork walk' w' ∧
          (w'.db.chainTip cfg.startBlockIndex - fork).toNat <
            (w.db.chainTip cfg.startBlockIndex - fork).toNat)
        (fun r w' => ∃ walk', r = .ok walk' ∧ OnFork cfg t chain nodeTip fork walk' w' ∧
          w'.db.chainTip cfg.startBlockIndex = fork)) := by
  have hlow := hfork.low
  have hnonneg := cfg.start_nonneg
  have habove := h.above
  have hcounted := h.counted
  unfold walkRound
  rw [if_neg (by simp [h.noHalt])]
  refine wp_returns_bind (wp_readLastStoredBlock_returns hfine h.idle) ?_
  intro w₁ hkept₁
  have h₁ := h.kept hkept₁
  rcases Int.lt_or_eq_of_le habove with hlt | hat
  · -- above the fork point: one delete
    obtain ⟨hlast, block, hash, hblock, hhash, hstored, hoff⟩ := h.tip_reorged hhashed hfork hlt
    have hgoOn : ∀ (r : Except (Stop Failure) Walk) (w₂ : World cfg.weight),
        OneLess cfg t chain nodeTip fork (w.db.chainTip cfg.startBlockIndex) r w₂ →
        Proc.continuesWith (fun walk' => (pure (.inl walk') : Decoder cfg (Walk ⊕ Walk))) env
          (Proc.roundEnds
            (fun walk' w' => OnFork cfg t chain nodeTip fork walk' w' ∧
              (w'.db.chainTip cfg.startBlockIndex - fork).toNat <
                (w.db.chainTip cfg.startBlockIndex - fork).toNat)
            (fun r w' => ∃ walk', r = .ok walk' ∧ OnFork cfg t chain nodeTip fork walk' w' ∧
              w'.db.chainTip cfg.startBlockIndex = fork)) r w₂ := by
      rintro r w₂ ⟨walk', rfl, hnext, htip⟩
      have hless : (w₂.db.chainTip cfg.startBlockIndex - fork).toNat <
          (w.db.chainTip cfg.startBlockIndex - fork).toNat := by omega
      exact ⟨hnext, hless⟩
    rw [hblock]
    dsimp only
    rw [if_neg (by omega), h.nodeTip, hhash]
    -- above the tip of the node there is no hash to compare with
    by_cases hshort : nodeTip < w.db.getLastBlockIndex
    · rw [Option.filter_some, if_pos (by simpa using hshort)]
      have hdelete := h₁.wp_deleteAboveTipBlock hfine hhonest hdepth hhashed hfork
        (by omega) (by rw [hkept₁.db]; omega) (by rw [hkept₁.db]) (by rw [hkept₁.db]; exact hstored)
        hoff
      rw [hkept₁.db] at hdelete
      exact Proc.wp_bind.mpr (Proc.wp_mono hdelete hgoOn)
    · rw [Option.filter_some, if_neg (by simpa using hshort)]
      refine wp_returns_bind (wp_returns_tryCatch (wp_returns_map some
        (wp_getBlockHash_returns hfine h₁.idle
          (fun n => hhonest.blockHash n w.db.getLastBlockIndex (by omega) (by omega))))) ?_
      intro w₂ hkept₂
      have h₂ := h₁.kept hkept₂
      have hdb₂ : w₂.db = w.db := hkept₂.db.trans hkept₁.db
      have hdiffer : some hash ≠ some (chain w.db.getLastBlockIndex) := by
        intro heq
        injection heq with heq
        exact hoff ⟨w.db.getLastBlockIndex, by omega, by omega, heq.symm⟩
      dsimp only
      rw [if_pos hdiffer]
      have hdelete := h₂.wp_deleteForkedBlock hfine hhonest hdepth hfork (by rw [hdb₂]; exact hlt)
        (by rw [hdb₂]) (by rw [hdb₂]; exact hstored) hoff
      rw [hdb₂] at hdelete
      exact Proc.wp_bind.mpr (Proc.wp_mono hdelete hgoOn)
  · -- at the fork point: the walk ends
    have hend : ∀ w₂ : World cfg.weight, OnFork cfg t chain nodeTip fork walk w₂ →
        w₂.db = w.db → ∃ walk', (Except.ok walk : Except (Stop Failure) Walk) = .ok walk' ∧
          OnFork cfg t chain nodeTip fork walk' w₂ ∧
          w₂.db.chainTip cfg.startBlockIndex = fork :=
      fun w₂ h₂ hdb₂ => ⟨walk, rfl, h₂, by rw [hdb₂]; exact hat.symm⟩
    cases hblock : w.db.getBlockByIndex w.db.getLastBlockIndex with
    | none => exact hend w₁ h₁ hkept₁.db
    | some block =>
      dsimp only
      by_cases hempty : w.db.getLastBlockIndex < cfg.startBlockIndex
      · rw [if_pos hempty]
        exact hend w₁ h₁ hkept₁.db
      · have hlast : w.db.getLastBlockIndex = fork := by
          rw [hat]
          exact ChainRows.getLastBlockIndex_eq (c := w.db.toChainRows) (.inl (by
            show _ ≤ w.db.getLastBlockIndex
            omega))
        -- the block at the fork point is one of the node, so the comparison holds
        have hcommon : block.blockHash = some (chain fork) := by
          have hhash : w.db.hashAt fork = some (chain fork) := by
            rw [h.hashAt_eq (by omega)]
            exact hfork.common fork (by omega) (Int.le_refl _)
          rw [Tables.hashAt, ← hlast, hblock, hlast] at hhash
          exact hhash
        have hnode := hfork.node
        rw [if_neg hempty, h.nodeTip, Option.filter_some, if_neg (by simp; omega)]
        refine wp_returns_bind (wp_returns_tryCatch (wp_returns_map some
          (wp_getBlockHash_returns hfine h₁.idle
            (fun n => hhonest.blockHash n w.db.getLastBlockIndex (by omega) (by omega))))) ?_
        intro w₂ hkept₂
        rw [hcommon, hlast]
        dsimp only
        rw [if_neg (fun hne => hne rfl)]
        exact hend w₂ (h₁.kept hkept₂) (hkept₂.db.trans hkept₁.db)

end Fork

/-! ## Section 4: The pass as a whole -/

/-- What a store has to be for its chain to be read: one row for each height of an
    interval, each with a known hash. -/
structure StoredChain (start : Int) (t : Tables weight) : Prop where
  nodup    : t.heights.Nodup
  interval : t.toChainRows.Interval start
  hashed   : t.Hashed

theorem StoredChain.hashAt_eq {start : Int} {t : Tables weight} (h : StoredChain start t)
    {b : BlockRow} (hb : b ∈ t.blocks) :
    t.hashAt b.blockIndex = t.indexTransactions.valueOf b.blockHashId := by
  have hmem : b.blockIndex ∈ t.heights := List.mem_map_of_mem hb
  obtain ⟨block, hblock⟩ :=
    Option.isSome_iff_exists.mp (Tables.getBlockByIndex_isSome.mpr hmem)
  obtain ⟨b', hb', hindex, rfl⟩ := Tables.getBlockByIndex_eq_some hblock
  have heq : b' = b := List.inj_on_of_nodup_map h.nodup hb' hb hindex
  rw [Tables.hashAt, hblock, heq]
  rfl

namespace Sample

/-- The node's chain in the run with a reorg. -/
def active (h : Int) : Hash := if h = 0 then hashA else hashC

theorem stored_hashes {events : List Event} {h : Int} {hash : Hash}
    (hat : ({ chain with events := events } : Tables id).hashAt h = some hash) :
    (h = 0 ∧ hash = hashA) ∨ (h = 1 ∧ hash = hashB) := by
  have hrows : ∀ b ∈ chain.blocks,
      (b.blockIndex = 0 ∧ chain.indexTransactions.valueOf b.blockHashId = some hashA) ∨
      (b.blockIndex = 1 ∧ chain.indexTransactions.valueOf b.blockHashId = some hashB) := by decide
  obtain ⟨block, hblock, hblockHash⟩ := Option.bind_eq_some_iff.mp hat
  obtain ⟨b, hb, rfl, rfl⟩ := Tables.getBlockByIndex_eq_some hblock
  have hvalue : chain.indexTransactions.valueOf b.blockHashId = some hash := hblockHash
  rcases hrows b hb with ⟨hindex, hhash⟩ | ⟨hindex, hhash⟩
  · rw [hhash] at hvalue
    exact .inl ⟨hindex, by injection hvalue with hvalue; exact hvalue.symm⟩
  · rw [hhash] at hvalue
    exact .inr ⟨hindex, by injection hvalue with hvalue; exact hvalue.symm⟩

theorem hashB_off (tip : Int) : ¬OnActiveChain active tip hashB := by
  rintro ⟨h, -, -, heq⟩
  unfold active at heq
  split at heq
  · exact absurd heq (by decide)
  · exact absurd heq (by decide)

theorem forkAt (events : List Event) :
    ForkAt config ({ chain with events := events } : Tables id) active 1 0 where
  low    := by decide
  node   := by decide
  tip    := by
    show 0 ≤ chain.chainTip 0
    decide
  common h hlow hle := by
    obtain rfl : h = 0 := by
      have hlow : (0 : Int) ≤ h := hlow
      omega
    rfl
  apart h hash hlt hat := by
    rcases stored_hashes hat with ⟨rfl, -⟩ | ⟨-, rfl⟩
    · exact absurd hlt (by decide)
    · exact hashB_off 1

/-- The same store under a halt that an earlier pass raised before any delete. -/
def halted : World id :=
  { stored with
    db := { chain with events := [.reorgHalt (.deepGap 0 (some hashC) 1 0 1)] } }

end Sample

end XChainDecoder
