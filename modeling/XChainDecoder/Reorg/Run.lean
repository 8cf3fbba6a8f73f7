import XChainDecoder.Reorg.Safety

/-! # Runs of commits, purges and rollbacks

    `Step` is what the block loop does to the database over its whole life, with
    restarts in between: commit the next block, purge, run `verifyReorg` against
    any node. A pass that is killed at some await is a step too, and its state is
    the one the next process boots on, so every state a crash can expose is
    reachable.

    **Main theorems.** `Reachable.purge_safe`: without a halt row no purged row
    was marked above the stored tip, and no more than the safe depth has been
    rolled back. `Reachable.proofBacked_and_bounded`: every delete was proven by
    the node, and the depth is bounded by the window, or under a confirmed halt by
    twice the window. -/

namespace XChainDecoder

variable {weight : String → String} {cfg : Config} {w w' : World cfg.weight}

/-! ## Section 1: Steps -/

/-- A process that has just started on a database. -/
def World.onDatabase (db : Tables weight) : World weight where
  db            := db
  txn           := none
  mem           := Memory.boot
  loop          := LoopState.boot
  tick          := 0
  log           := []
  inFlight      := none
  haltConfirmed := false
  watch         := ⟨false, false, false⟩

/-- Restart: the open transaction is gone and so is everything in memory. -/
def World.reboot (w : World weight) : World weight :=
  { w with
    txn := none, mem := Memory.boot, loop := LoopState.boot, inFlight := none
    watch := { w.watch with parking := false, released := false } }

/-- What a call leaves behind; a killed process is started again. -/
def afterCall {α : Type} : Except (Stop Failure) α × World weight → World weight
  | (.error .crashed, w) => w.reboot
  | (_, w)               => w

/-- One block transaction, as it commits: the block and the rows of its pass,
    its hash interned, and quarantine records in `events`. -/
structure Commits (blockIndex : Int) (t t' : Tables weight) : Prop where
  pass   : ChainRows.Pass blockIndex t.toChainRows t'.toChainRows
  grows  : Tables.Grows t t'
  hashed : ∀ b ∈ t'.blocks, b.blockIndex = blockIndex →
    ∃ hash, t'.indexTransactions.valueOf b.blockHashId = some hash
  events : ∃ news, t'.events = news ++ t.events ∧
    ∀ e ∈ news, ∃ time height position hash error, e = .parseError time height position hash error

/-- A block without transactions commits its own row. -/
theorem commits_insertBlock {t t' : Tables weight} {blockIndex : Int} (blockTime : Int)
    (blockHash previousBlockHash : Hash)
    (h : t.insertBlock blockIndex blockTime blockHash previousBlockHash = some t') :
    Commits blockIndex t t' := by
  unfold Tables.insertBlock at h
  by_cases hmem : blockIndex ∈ t.heights
  · simp [hmem] at h
  · simp only [if_neg hmem, Option.some.injEq] at h
    subst h
    have hgrows := (t.createTransaction_grows blockHash).trans
      ((t.createTransaction blockHash).2.createTransaction_grows previousBlockHash)
    refine ⟨⟨_, rfl, hmem, Relation.ReflTransGen.refl⟩,
      ⟨hgrows.addresses, hgrows.transactions, hgrows.pubkeys, hgrows.events⟩, ?_, [], rfl, ?_⟩
    · intro b hb hindex
      rcases List.mem_append.mp hb with hb | hb
      · exact absurd (hindex ▸ List.mem_map_of_mem hb) hmem
      · rw [List.mem_singleton.mp hb]
        refine ⟨blockHash, Index.valueOf_of_prefix (t := (t.createTransaction blockHash).2.indexTransactions)
          (Index.rows_prefix_create 1 _ previousBlockHash) ?_⟩
        exact Index.valueOf_create_of_injective Function.injective_id 1 _ blockHash
    · intro e he
      cases he

inductive Step (cfg : Config) : World cfg.weight → World cfg.weight → Prop where
  | commit (w : World cfg.weight) {blockIndex : Int} {t : Tables cfg.weight}
      (hnext : blockIndex = w.db.chainTip cfg.startBlockIndex + 1)
      (hcommits : Commits blockIndex w.db t) :
      Step cfg w { w with db := t, txn := none, log := .committed blockIndex :: w.log }
  /-- the two statements of the purge behind a stored block -/
  | purgeRows (w : World cfg.weight) {blockIndex : Int} (graceFloor : Option Int)
      (hstored : blockIndex ∈ w.db.heights) :
      Step cfg w { w with
        db := { w.db with
          toChainRows := w.db.toChainRows.purgeRows (blockIndex - cfg.safeDepth) graceFloor }
        log := .purged (w.db.dispensers.filter
          (w.db.toChainRows.purgeable (blockIndex - cfg.safeDepth) graceFloor)) :: w.log }
  | purgeUndo (w : World cfg.weight) {blockIndex : Int} (hstored : blockIndex ∈ w.db.heights) :
      Step cfg w { w with
        db := { w.db with
          toChainRows := w.db.toChainRows.purgeUndo (blockIndex - cfg.safeDepth) } }
  /-- one pass against any node, with room in the marker scan -/
  | verifyReorg (w : World cfg.weight) (env : Env) (rounds : Nat) (nodeTip : Option Int)
      (hrows : w.db.reorgRowCount < REORG_SCAN_LIMIT) :
      Step cfg w (afterCall ((verifyReorg rounds nodeTip : Decoder cfg Unit) env w))
  | restart (w : World cfg.weight) : Step cfg w w.reboot
  /-- an await of the loop outside a pass, with the probe that may end there -/
  | await (w : World cfg.weight) (env : Env) : Step cfg w (w.tock env)
  /-- the loop changes its own fields; it neither vouches for a marker it has not
      read nor fills the proof cache -/
  | remember (w : World cfg.weight) (mem : Memory) (loop : LoopState)
      (hpersisted : mem.reorgHaltMarkerPersisted = some true →
        w.mem.reorgHaltMarkerPersisted = some true)
      (hcache : ∀ e, mem.forkProofCache = some e → w.mem.forkProofCache = some e) :
      Step cfg w { w with mem := mem, loop := loop }

/-- The states of a run that starts on a database just created. -/
inductive Reachable (cfg : Config) : World cfg.weight → Prop where
  | boot : Reachable cfg (World.onDatabase (Tables.fresh cfg.weight))
  | step {w w' : World cfg.weight} : Reachable cfg w → Step cfg w w' → Reachable cfg w'

/-! ## Section 2: Every step keeps the invariant -/

theorem safe_boot (cfg : Config) : Safe cfg (World.onDatabase (Tables.fresh cfg.weight)) where
  wf       := by
    refine ⟨List.nodup_nil, List.nodup_nil, ?_, ?_, ?_, List.nodup_nil, ?_, ?_, ?_⟩ <;>
      intro x hx <;> cases hx
  interval := by
    -- no block is stored, which is the interval below the start
    have hnone : ∀ h, h ∈ (Tables.fresh cfg.weight).heights ↔
        cfg.startBlockIndex ≤ h ∧ h ≤ cfg.startBlockIndex - 1 := by
      intro h
      constructor
      · intro hh; cases hh
      · intro hh; omega
    exact ChainRows.interval_of_heights cfg.start_nonneg _ (Int.le_refl _) hnone
  hashed   := fun b hb => by cases hb
  sound    := ⟨nofun, nofun, nofun, nofun, nofun, nofun⟩
  cache    := fun e he => by cases he
  backed   := trivial
  marked   := by
    intro h hlt hle
    have htip := ChainRows.start_sub_one_le_chainTip cfg.startBlockIndex
      (Tables.fresh cfg.weight).toChainRows
    have hle : h ≤ cfg.startBlockIndex - 1 := hle
    have hlt : (Tables.fresh cfg.weight).chainTip cfg.startBlockIndex < h := hlt
    omega
  marks    := fun h hh => by cases hh
  tip_le   := by
    have hnonneg := cfg.start_nonneg
    show max (-1) (cfg.startBlockIndex - 1) ≤ cfg.startBlockIndex - 1
    omega
  depth    := .inl (by
    have hpos := cfg.safeDepth_pos
    have htip := ChainRows.start_sub_one_le_chainTip cfg.startBlockIndex
      (Tables.fresh cfg.weight).toChainRows
    show cfg.startBlockIndex - 1 - (Tables.fresh cfg.weight).chainTip cfg.startBlockIndex ≤ _
    omega)
  twice    := by
    have hpos := cfg.safeDepth_pos
    have htip := ChainRows.start_sub_one_le_chainTip cfg.startBlockIndex
      (Tables.fresh cfg.weight).toChainRows
    show cfg.startBlockIndex - 1 - (Tables.fresh cfg.weight).chainTip cfg.startBlockIndex ≤ _
    omega
  purged   := fun rows hrows => by cases hrows

theorem Safe.reboot (h : Safe cfg w) : Safe cfg w.reboot :=
  { h with
    sound := ⟨nofun, h.sound.confirmed, fun _ hr => hr, nofun,
      h.sound.audited.2, h.sound.audited.2⟩
    cache := fun e he => by cases he }

theorem Ends.afterCall {α : Type} {r : Except (Stop Failure) α × World cfg.weight}
    (h : Ends cfg r.1 r.2) : Safe cfg (afterCall r) ∧ Idle (afterCall r) := by
  obtain ⟨r, w⟩ := r
  match r with
  | .error .crashed     => exact ⟨h.1.reboot, rfl⟩
  | .error (.thrown e)  => exact ⟨h.1, h.2 (by simp)⟩
  | .error .unfinished  => exact ⟨h.1, h.2 (by simp)⟩
  | .ok a               => exact ⟨h.1, h.2 (by simp)⟩

theorem Commits.halts_iff {blockIndex : Int} {t t' : Tables weight} (h : Commits blockIndex t t')
    {e : Event} (he : e.isHalt = true) : e ∈ t'.events ↔ e ∈ t.events := by
  obtain ⟨news, heq, hnews⟩ := h.events
  rw [heq, List.mem_append]
  refine or_iff_right (fun hmem => ?_)
  obtain ⟨_, _, _, _, _, rfl⟩ := hnews e hmem
  cases he

theorem Commits.reorgMarks_eq {blockIndex : Int} {t t' : Tables weight}
    (h : Commits blockIndex t t') : t'.reorgMarks = t.reorgMarks := by
  obtain ⟨news, heq, hnews⟩ := h.events
  refine Tables.reorgMarks_congr heq (fun e he => ?_)
  obtain ⟨_, _, _, _, _, rfl⟩ := hnews e he
  rfl

theorem Safe.commit (h : Safe cfg w) {blockIndex : Int} {t : Tables cfg.weight}
    (hnext : blockIndex = w.db.chainTip cfg.startBlockIndex + 1)
    (hc : Commits blockIndex w.db t) :
    Safe cfg { w with db := t, txn := none, log := .committed blockIndex :: w.log } := by
  have hheights : ∀ i, i ∈ t.heights ↔ i ∈ w.db.heights ∨ i = blockIndex :=
    hc.pass.mem_heights
  have htip : t.chainTip cfg.startBlockIndex = blockIndex :=
    ChainRows.chainTip_push h.interval cfg.start_nonneg hnext hheights
  have hlow := ChainRows.start_sub_one_le_chainTip cfg.startBlockIndex w.db.toChainRows
  have hhigh : highestCommitted cfg.startBlockIndex (.committed blockIndex :: w.log) =
      max blockIndex (highestCommitted cfg.startBlockIndex w.log) := rfl
  have htip_le := h.tip_le
  have hdepth := h.depth
  have htwice := h.twice
  have hpos := cfg.safeDepth_pos
  exact
    { wf       := (hc.pass.wf_and_deleteBlock h.wf).1
      interval := h.interval.push cfg.start_nonneg hnext hheights
      hashed   := by
        intro b hb
        -- the new block was stored with its hash, the old ones kept theirs
        by_cases hnew : b.blockIndex = blockIndex
        · exact hc.hashed b hb hnew
        · obtain ⟨b₀, hblocks, hb₀⟩ := hc.pass.blocks_eq
          have hb : b ∈ w.db.blocks ++ [b₀] := hblocks ▸ hb
          rcases List.mem_append.mp hb with hb | hb
          · obtain ⟨hash, hhash⟩ := h.hashed b hb
            exact ⟨hash, Index.valueOf_of_prefix hc.grows.transactions hhash⟩
          · rw [List.mem_singleton.mp hb] at hnew
            exact absurd hb₀ hnew
      sound    := by
        have hcommit := h.sound.commitTxn (t := t) (fun e he => hc.halts_iff he)
        exact ⟨hcommit.persisted, hcommit.confirmed, hcommit.view, hcommit.reading, hcommit.audited⟩
      cache    := h.cache
      backed   := h.backed
      marked   := by
        intro i hlt hle
        rw [htip] at hlt
        rw [hhigh] at hle
        rw [hc.reorgMarks_eq]
        exact h.marked i (by omega) (by omega)
      marks    := by
        intro i hi
        rw [hc.reorgMarks_eq] at hi
        rw [hhigh]
        have := h.marks i hi
        omega
      tip_le   := by rw [htip, hhigh]; omega
      depth    := by
        rw [htip, hhigh]
        exact hdepth.imp (fun hle => by omega) id
      twice    := by rw [htip, hhigh]; omega
      purged   := by
        rw [hhigh]
        intro rows hmem d hd mark hmark
        rcases List.mem_cons.mp hmem with hmem | hmem
        · cases hmem
        · have := h.purged rows hmem d hd mark hmark
          omega }

/-- Purging keeps the blocks, so everything that is read off them. -/
theorem Safe.purge (h : Safe cfg w) {c : ChainRows} (hwf : c.Wf)
    (hblocks : c.blocks = w.db.blocks) {log : List (Observed cfg.weight)}
    (hhigh : highestCommitted cfg.startBlockIndex log =
      highestCommitted cfg.startBlockIndex w.log)
    (hbacked : ProofBacked log)
    (hpurged : ∀ rows, Observed.purged rows ∈ log → ∀ d ∈ rows, ∀ mark,
      d.expiredBlockIndex = some mark → cfg.startBlockIndex ≤ mark ∧
        mark ≤ highestCommitted cfg.startBlockIndex w.log - cfg.safeDepth) (hw : Idle w) :
    Safe cfg { w with db := { w.db with toChainRows := c }, log := log } := by
  -- a purge touches no block, so the tip and the heights are the old ones
  have htip : c.chainTip cfg.startBlockIndex = w.db.chainTip cfg.startBlockIndex :=
    ChainRows.chainTip_congr hblocks
  have hheights : c.heights = w.db.heights := ChainRows.heights_eq_of_blocks_eq hblocks
  have hsound : HaltSound { w with db := { w.db with toChainRows := c }, log := log } := by
    have hcommit := h.sound.commitTxn (t := { w.db with toChainRows := c }) (fun _ _ => Iff.rfl)
    have hidle : w.txn = none := hw
    refine ⟨hcommit.persisted, hcommit.confirmed, fun r hr => ?_, hcommit.reading, ?_,
      hcommit.audited.2⟩
    · simpa [World.view, hidle] using hr
    · simpa [World.view, hidle] using hcommit.audited.2
  exact
    { wf       := hwf
      interval := by
        intro i
        show i ∈ c.heights ↔ _ ∧ i ≤ c.chainTip cfg.startBlockIndex
        rw [hheights, htip]
        exact h.interval i
      hashed   := h.hashed.congr hblocks rfl
      sound    := hsound
      cache    := h.cache
      backed   := hbacked
      marked   := by
        show ∀ i, c.chainTip cfg.startBlockIndex < i → _
        rw [htip, hhigh]
        exact h.marked
      marks    := by rw [hhigh]; exact h.marks
      tip_le   := by
        show c.chainTip cfg.startBlockIndex ≤ _
        rw [htip, hhigh]
        exact h.tip_le
      depth    := by
        show _ - c.chainTip cfg.startBlockIndex ≤ _ ∨ _
        rw [htip, hhigh]
        exact h.depth
      twice    := by
        show _ - c.chainTip cfg.startBlockIndex ≤ _
        rw [htip, hhigh]
        exact h.twice
      purged   := by rw [hhigh]; exact hpurged }

theorem ChainRows.mark_of_purgeable {c : ChainRows} {safeHeight : Int} {graceFloor : Option Int}
    {d : DispenserRow} {mark : Int} (h : c.purgeable safeHeight graceFloor d = true)
    (hmark : d.expiredBlockIndex = some mark) : mark ≤ safeHeight := by
  unfold purgeable at h
  rw [hmark] at h
  simpa using (Bool.and_eq_true_iff.mp h).1

/-- **Step lemma.** Every step keeps the invariant. -/
theorem Step.safe (hs : Step cfg w w') (h : Safe cfg w) (hw : Idle w) : Safe cfg w' ∧ Idle w' := by
  cases hs with
  | commit hnext hcommits => exact ⟨h.commit hnext hcommits, rfl⟩
  | purgeRows graceFloor hstored =>
    rename_i blockIndex
    refine ⟨h.purge (h.wf.purgeRows _ _) rfl rfl h.backed ?_ hw, hw⟩
    intro rows hmem d hd mark hmark
    rcases List.mem_cons.mp hmem with hmem | hmem
    · injection hmem with hrows
      subst hrows
      obtain ⟨hd, hpurgeable⟩ := List.mem_filter.mp hd
      have hle := ChainRows.mark_of_purgeable hpurgeable hmark
      have hge := (h.interval mark).mp (h.wf.mark_block d hd mark hmark)
      have hblock := (h.interval blockIndex).mp hstored
      have htip := h.tip_le
      omega
    · exact h.purged rows hmem d hd mark hmark
  | purgeUndo hstored =>
    exact ⟨h.purge (h.wf.purgeUndo _) rfl rfl h.backed h.purged hw, hw⟩
  | verifyReorg env rounds nodeTip hrows =>
    exact (h.wp_verifyReorg hw (Nat.le_of_lt hrows) rounds nodeTip : Ends cfg _ _).afterCall
  | restart => exact ⟨h.reboot, rfl⟩
  | await env => exact ⟨h.steady (steady_tock env w), idle_tock hw⟩
  | remember mem loop hpersisted hcache =>
    exact ⟨{ h with
      sound := ⟨fun hp => h.sound.persisted (hpersisted hp), h.sound.confirmed, h.sound.view,
        h.sound.reading, h.sound.audited⟩
      cache := fun e he => h.cache e (hcache e he) }, hw⟩

/-- **Run lemma.** The invariant holds in every reachable state. -/
theorem Reachable.safe (h : Reachable cfg w) : Safe cfg w ∧ Idle w := by
  induction h with
  | boot => exact ⟨safe_boot cfg, rfl⟩
  | step _ hs ih => exact hs.safe ih.1 ih.2

/-! ## Section 3: Main theorems -/

/-- Without a halt row, no purged dispenser row was marked above the stored tip,
    and the rollbacks never passed the safe depth. -/
theorem Reachable.purge_safe (h : Reachable cfg w)
    (hlive : ∀ reason, Event.reorgHalt reason ∉ w.db.events) :
    (∀ rows, Observed.purged rows ∈ w.log → ∀ d ∈ rows, ∀ mark,
      d.expiredBlockIndex = some mark → mark ≤ w.db.getLastBlockIndex) ∧
    highestCommitted cfg.startBlockIndex w.log - w.db.chainTip cfg.startBlockIndex ≤
      cfg.safeDepth := by
  obtain ⟨hsafe, -⟩ := h.safe
  have hdepth : rolledBack cfg w ≤ cfg.safeDepth := by
    rcases hsafe.depth with hdepth | hconfirmed
    · exact hdepth
    · obtain ⟨reason, hrow⟩ := hsafe.sound.confirmed hconfirmed
      exact absurd hrow (hlive reason)
  unfold rolledBack at hdepth
  refine ⟨fun rows hrows d hd mark hmark => ?_, hdepth⟩
  obtain ⟨hge, hle⟩ := hsafe.purged rows hrows d hd mark hmark
  have hlast : w.db.getLastBlockIndex = w.db.chainTip cfg.startBlockIndex :=
    ChainRows.getLastBlockIndex_eq (c := w.db.toChainRows) (.inr (by omega))
  omega

/-- Every delete was proven by the node for the very hash it removed, and the
    depth stays within the window, or within twice the window under a halt. -/
theorem Reachable.proofBacked_and_bounded (h : Reachable cfg w) :
    ProofBacked w.log ∧
    (highestCommitted cfg.startBlockIndex w.log - w.db.chainTip cfg.startBlockIndex ≤
        cfg.safeDepth ∨
      (w.haltConfirmed = true ∧ ∃ reason, Event.reorgHalt reason ∈ w.db.events)) ∧
    highestCommitted cfg.startBlockIndex w.log - w.db.chainTip cfg.startBlockIndex ≤
      2 * cfg.safeDepth := by
  obtain ⟨hsafe, -⟩ := h.safe
  refine ⟨hsafe.backed, hsafe.depth.imp_right (fun hconfirmed => ?_), hsafe.twice⟩
  exact ⟨hconfirmed, hsafe.sound.confirmed hconfirmed⟩

/-! ## Section 4: A run with a reorg

    Two stored blocks, of which the node reorged the upper one away. -/

namespace Sample

def config : Config where
  weight                     := id
  startBlockIndex            := 0
  start_nonneg               := by decide
  dispenserExpireSafeDepth   := 1
  consensusNetwork           := "regtest"
  chainGenesisHash           := none
  blocksPerTransaction       := DB_TRANSACTION_BLOCKS_QUANTITY
  blocksPerTransaction_pos   := by decide

def hashA : Hash := ⟨"aaaaaaaaaaaaaaaaaaaaaaaaaaaaaaaaaaaaaaaaaaaaaaaaaaaaaaaaaaaaaaaa", by decide⟩
def hashB : Hash := ⟨"bbbbbbbbbbbbbbbbbbbbbbbbbbbbbbbbbbbbbbbbbbbbbbbbbbbbbbbbbbbbbbbb", by decide⟩
def hashC : Hash := ⟨"cccccccccccccccccccccccccccccccccccccccccccccccccccccccccccccccc", by decide⟩

/-- A node on the chain A, C that still knows the header of B. -/
def node : Env where
  crashes _                 := false
  dbFails _                 := false
  rpcFails _                := false
  probe _                   := .none
  now tick                  := tick
  getblockhash _ height     := some (if height = 0 then hashA.val else hashC.val)
  getblockheader _ hash     :=
    if hash = some hashB then .header (some (-1)) else .header (some 1)
  getblockchaininfo _       := .missing
  getblock _ _              := .failed

/-- The chain A, B. -/
def genesis : Tables id := ((Tables.fresh id).insertBlock 0 1600000000 hashA hashC).getD
  (Tables.fresh id)

def chain : Tables id := (genesis.insertBlock 1 1600000600 hashB hashA).getD genesis

def stored : World id :=
  { World.onDatabase chain with log := [.committed 1, .committed 0] }

/-- After one pass against that node. -/
def reorged : World id :=
  afterCall ((verifyReorg 3 (some 1) : Decoder config Unit) node stored)

theorem reachable_stored : Reachable config stored := by
  have hgenesis : Step config (World.onDatabase (Tables.fresh id))
      { World.onDatabase genesis with log := [.committed 0] } :=
    Step.commit _ (by decide)
      (commits_insertBlock 1600000000 hashA hashC (by decide))
  have hchain : Step config { World.onDatabase genesis with log := [.committed 0] } stored :=
    Step.commit _ (by decide)
      (commits_insertBlock 1600000600 hashB hashA (by decide))
  exact (Reachable.boot.step hgenesis).step hchain

theorem reachable_reorged : Reachable config reorged :=
  reachable_stored.step (@Step.verifyReorg config stored node 3 (some 1) (by decide))

/-- The pass took the upper block, and the depth it used is on record. -/
example : reorged.db.heights = [0] ∧ reorged.db.rolledBackDepth = 1 := by decide

theorem purge_safe_reorged :
    (∀ rows, Observed.purged rows ∈ reorged.log → ∀ d ∈ rows, ∀ mark,
      d.expiredBlockIndex = some mark → mark ≤ reorged.db.getLastBlockIndex) ∧
    highestCommitted config.startBlockIndex reorged.log -
      reorged.db.chainTip config.startBlockIndex ≤ config.safeDepth :=
  reachable_reorged.purge_safe (by
    have hnone : reorged.db.events.all (fun e => !e.isHalt) = true := by decide
    intro reason hrow
    cases List.all_eq_true.mp hnone _ hrow)

theorem proofBacked_reorged :
    ProofBacked reorged.log ∧
    (highestCommitted config.startBlockIndex reorged.log -
        reorged.db.chainTip config.startBlockIndex ≤ config.safeDepth ∨
      (reorged.haltConfirmed = true ∧
        ∃ reason, Event.reorgHalt reason ∈ reorged.db.events)) ∧
    highestCommitted config.startBlockIndex reorged.log -
      reorged.db.chainTip config.startBlockIndex ≤ 2 * config.safeDepth :=
  reachable_reorged.proofBacked_and_bounded

end Sample

end XChainDecoder
