import XChainDecoder.Loop.Still

/-! # The cursor and the stored tip

    The cursor, the batch counter and the open transaction are three copies of one
    fact. A turn that stores a block or re-derives the cursor leaves them in
    agreement; a turn that ends in a proof wait keeps the cursor it began with,
    whatever its rollback has deleted by then.

    **Main theorems.** `maintains_storeBlock_end` and `maintains_reconcile`: what a
    block pass and a rollback leave of the three. -/

namespace XChainDecoder

open Proc Tables

variable {cfg : Config} {α : Type} {rules : Rules} {w₀ : World cfg.weight}

/-! ## Section 1: Agreement -/

/-- The cursor is the stored tip as the loop's own connection reads it, and blocks
    are counted exactly while a block transaction is open. -/
structure Agrees (w : World cfg.weight) : Prop where
  cursor  : w.loop.lastProcessedBlockIndex = max w.view.getLastBlockIndex (cfg.startBlockIndex - 1)
  counted : 0 ≤ w.loop.blocksQuantity
  batch   : 0 < w.loop.blocksQuantity ↔ w.txn ≠ none

theorem Agrees.low {w : World cfg.weight} (h : Agrees w) : CursorLow cfg w := by
  unfold CursorLow
  rw [h.cursor]
  exact Int.le_max_right _ _

theorem Still.agrees {w w' : World cfg.weight} (h : Still w w') (ha : Agrees w) : Agrees w' where
  cursor  := by rw [h.cursor, h.view]; exact ha.cursor
  counted := by rw [h.batch]; exact ha.counted
  batch   := by rw [h.batch, h.txn]; exact ha.batch

theorem Still.low {w w' : World cfg.weight} (h : Still w w') (hlow : CursorLow cfg w) :
    CursorLow cfg w' := by
  unfold CursorLow
  rw [h.cursor]
  exact hlow

/-- No transaction is open, and the cursor is the stored tip. -/
def Aligned (w : World cfg.weight) : Prop := Idle w ∧ Agrees w

theorem Aligned.of_cursor {w : World cfg.weight} (hidle : Idle w)
    (hcursor : w.loop.lastProcessedBlockIndex =
      max w.view.getLastBlockIndex (cfg.startBlockIndex - 1))
    (hbatch : w.loop.blocksQuantity = 0) : Aligned w := by
  have hnone : w.txn = none := hidle
  refine ⟨hidle, hcursor, ?_, ?_⟩
  · rw [hbatch]
  · rw [hbatch, hnone]
    simp

/-! ## Section 2: Re-deriving the cursor -/

/-- What re-deriving the cursors may change, and where the cursor then is. -/
structure Derives (w : World cfg.weight) (done : Prop) (w' : World cfg.weight) : Prop where
  db      : w'.db = w.db
  txn     : w'.txn = w.txn
  batch   : w'.loop.blocksQuantity = w.loop.blocksQuantity
  parked  : w'.mem.reorgHaltParked = w.mem.reorgHaltParked
  deletes : w'.deletes = w.deletes
  cursor  : w'.loop.lastProcessedBlockIndex = w.loop.lastProcessedBlockIndex ∨
    w'.loop.lastProcessedBlockIndex = max w.view.getLastBlockIndex (cfg.startBlockIndex - 1)
  done    : done →
    w'.loop.lastProcessedBlockIndex = max w.view.getLastBlockIndex (cfg.startBlockIndex - 1)

theorem wp_deriveCursors {env : Env} (w : World cfg.weight) :
    (deriveCursors : Decoder cfg Unit).wp env w (fun r w' => Derives w (r = .ok ()) w') := by
  have htock := still_tock env w
  have hkept : Derives w False w :=
    ⟨rfl, rfl, rfl, rfl, rfl, .inl rfl, False.elim⟩
  have hticked : Derives w False (w.tock env) :=
    ⟨htock.db, htock.txn, htock.batch, htock.parked, htock.deletes, .inl htock.cursor, False.elim⟩
  refine Proc.wp_bind.mpr (wp_query ?_ ?_ ?_)
  · exact { hkept with done := nofun }
  · exact { hticked with done := nofun }
  -- the block cursor is set before the transaction cursor is read
  rw [continuesWith_ok, wp_bind, wp_modify, continuesWith_ok]
  generalize hset : ({ w.tock env with
    mem  := { (w.tock env).mem with
      lastProcessedBlockIndex := max w.view.getLastBlockIndex (cfg.startBlockIndex - 1) }
    loop := { (w.tock env).loop with
      lastProcessedBlockIndex := max w.view.getLastBlockIndex (cfg.startBlockIndex - 1) } } :
    World cfg.weight) = w₁
  have h₁ : Derives w True w₁ := by
    rw [← hset]
    exact ⟨htock.db, htock.txn, htock.batch, htock.parked, htock.deletes, .inr rfl, fun _ => rfl⟩
  have htock₁ := still_tock env w₁
  have h₂ : Derives w True (w₁.tock env) :=
    ⟨htock₁.db.trans h₁.db, htock₁.txn.trans h₁.txn, htock₁.batch.trans h₁.batch,
      htock₁.parked.trans h₁.parked, htock₁.deletes.trans h₁.deletes,
      .inr (htock₁.cursor.trans (h₁.done trivial)), fun _ => htock₁.cursor.trans (h₁.done trivial)⟩
  refine Proc.wp_bind.mpr (wp_query ?_ ?_ ?_)
  · exact { h₁ with done := nofun }
  · exact { h₂ with done := nofun }
  · exact ⟨h₂.db, h₂.txn, h₂.batch, h₂.parked, h₂.deletes, h₂.cursor, fun _ => h₂.done trivial⟩

theorem Derives.intact {w w' : World cfg.weight} {done : Prop} (h : Derives w done w')
    (hI : Intact cfg w) : Intact cfg w' :=
  hI.congr h.db (.inl h.txn)

theorem Derives.low {w w' : World cfg.weight} {done : Prop} (h : Derives w done w')
    (hlow : CursorLow cfg w) : CursorLow cfg w' := by
  rcases h.cursor with hcursor | hcursor
  · unfold CursorLow
    rw [hcursor]
    exact hlow
  · unfold CursorLow
    rw [hcursor]
    exact Int.le_max_right _ _

theorem Derives.view {w w' : World cfg.weight} {done : Prop} (h : Derives w done w') :
    w'.view = w.view := by
  unfold World.view
  rw [h.txn, h.db]

theorem maintains_rederive {P : World cfg.weight → Prop} :
    Maintains (images cfg) P (deriveCursors : Decoder cfg Unit)
      (fun _ w => ∃ w₁, P w₁ ∧ Derives w₁ True w) := by
  intro env w hI hP
  refine wp_mono (wp_deriveCursors w) ?_
  intro r w' h
  refine ⟨?_, fun _ hr => ⟨w, hP, { h with done := fun _ => h.done hr }⟩⟩
  match r with
  | .ok ()              => exact h.intact hI
  | .error (.thrown e)  => exact h.intact hI
  | .error .unfinished  => exact h.intact hI
  | .error .crashed     => exact (h.intact hI).db

/-- The cursor is that of the tables; aligned, if no transaction was open before. -/
def Realigned (P : World cfg.weight → Prop) (w : World cfg.weight) : Prop :=
  CursorLow cfg w ∧ ∃ w₁, P w₁ ∧ (Idle w₁ → Aligned w)

/-- The batch is reset behind the cursors. -/
theorem maintains_resetBatch {P : World cfg.weight → Prop} :
    Maintains (images cfg) (fun w => ∃ w₁, P w₁ ∧ Derives w₁ True w)
      (resetBatch : Decoder cfg Unit) (fun _ => Realigned P) := by
  refine maintains_updateLoop ?_
  rintro w ⟨w₁, hP, h⟩
  have hcursor := h.done trivial
  refine ⟨?_, w₁, hP, fun hidle => ?_⟩
  · show cfg.startBlockIndex - 1 ≤ w.loop.lastProcessedBlockIndex
    rw [hcursor]
    exact Int.le_max_right _ _
  · have hview : w.view = w₁.view := h.view
    refine Aligned.of_cursor (h.txn.trans hidle) ?_ rfl
    show w.loop.lastProcessedBlockIndex = max w.view.getLastBlockIndex _
    rw [hcursor, hview]

theorem Still.idle {w w' : World cfg.weight} (h : Still w w') (hidle : Idle w) : Idle w' :=
  h.txn.trans hidle

theorem Still.aligned {w w' : World cfg.weight} (h : Still w w') (ha : Aligned w) : Aligned w' :=
  ⟨h.idle ha.1, h.agrees ha.2⟩

theorem Still.realigned {P : World cfg.weight → Prop} (w w' : World cfg.weight) (h : Still w w')
    (ha : Realigned P w) : Realigned P w' := by
  obtain ⟨hlow, w₁, hP, haligned⟩ := ha
  exact ⟨h.low hlow, w₁, hP, fun hidle => h.aligned (haligned hidle)⟩

/-! ## Section 3: The pass -/

/-- What a pass leaves, by how it ends. -/
def StoredEnd (w₀ : World cfg.weight) (e : PassEnd) (w : World cfg.weight) : Prop :=
  match e with
  | .rollback => Agrees w₀ → Idle w
  | .retried  => CursorLow cfg w ∧ (Agrees w₀ → Aligned w)
  | .stored   => CursorLow cfg w ∧
      (Agrees w₀ → Agrees w ∧ w.mem.reorgHaltParked = w₀.mem.reorgHaltParked)

/-- What the purge behind a commit leaves alone. -/
structure Purges (w w' : World cfg.weight) : Prop where
  blocks : w'.db.blocks = w.db.blocks
  txn    : w'.txn = w.txn
  loop   : w'.loop = w.loop
  parked : w'.mem.reorgHaltParked = w.mem.reorgHaltParked

theorem purges_preorder : IsPreorderRel (@Purges cfg) where
  refl  := fun _ => ⟨rfl, rfl, rfl, rfl⟩
  trans := fun h h' => ⟨h'.blocks.trans h.blocks, h'.txn.trans h.txn, h'.loop.trans h.loop,
    h'.parked.trans h.parked⟩

theorem purges_tock (env : Env) (w : World cfg.weight) : Purges w (w.tock env) :=
  ⟨by rw [tock_db], tock_txn env w, tock_loop env w, tock_mem_parked env w⟩

theorem stays_purgeExpiredAfterCommit (blockIndex time : Int) :
    Stays (fun _ => True) Purges
      (purgeExpiredAfterCommit rules blockIndex time : Decoder cfg Unit) := by
  have hpure : Stays (fun _ => True) Purges (pure () : Decoder cfg Unit) :=
    stays_pure purges_preorder ()
  have hanswered : ∀ f : Env → Nat → Bool,
      Stays (fun _ => True) Purges (answered f : Decoder cfg Bool) := by
    intro f env w _
    exact wp_answered ⟨purges_preorder.refl w, fun _ => trivial⟩ ⟨purges_tock env w, fun _ => trivial⟩
  refine stays_ite hpure (stays_bind purges_preorder (hanswered _) (fun fails => ?_))
  refine stays_ite hpure (stays_bind purges_preorder ?_ (fun _ => ?_))
  · exact fun _ w _ => ⟨⟨rfl, rfl, rfl, rfl⟩, fun _ => trivial⟩
  refine stays_bind purges_preorder (hanswered _) (fun fails => stays_ite hpure ?_)
  exact fun _ w _ => ⟨⟨rfl, rfl, rfl, rfl⟩, fun _ => trivial⟩

section Pass

variable {env : Env} {w : World cfg.weight} {n : Int}

/-- The tables of a filled block: their tip is the block, above the start height. -/
structure Filled (n : Int) (t : Tables cfg.weight) (w : World cfg.weight) : Prop where
  txn     : w.txn = some t
  tip     : max t.getLastBlockIndex (cfg.startBlockIndex - 1) = n
  counted : 0 ≤ w.loop.blocksQuantity

theorem wp_updateLoop_iff {f : LoopState → LoopState}
    {Q : Except (Stop Failure) Unit → World cfg.weight → Prop} :
    (updateLoop f : Decoder cfg Unit).wp env w Q ↔ Q (.ok ()) { w with loop := f w.loop } := Iff.rfl

/-- A commit aligns the loop with the block, and so does a commit that fails with the
    tables it leaves. -/
theorem wp_commitBlockBatch {t : Tables cfg.weight} (h : Filled n t w) (time : Int) :
    (commitBlockBatch rules n time : Decoder cfg Bool).wp env w (fun r w' =>
      (r = .ok false → Aligned w') ∧
      (r = .ok true → Idle w' ∧ w'.db.blocks = t.blocks ∧ w'.loop.blocksQuantity = -1 ∧
        w'.mem.reorgHaltParked = w.mem.reorgHaltParked)) := by
  refine Proc.wp_bind.mpr (wp_commitTransaction h.txn ⟨nofun, nofun⟩ ?_ ?_)
  · -- the transaction is gone, and the cursors are re-derived
    rw [continuesWith_ok, if_neg (by decide)]
    generalize hgone : ({ w.tock env with txn := none } : World cfg.weight) = w₁
    have hidle : Idle w₁ := by rw [← hgone]; rfl
    refine wp_seq (wp_deriveCursors w₁) ?_ (fun e w' _ => ⟨nofun, nofun⟩)
    intro _ w₂ h₂
    have hview : w₂.view = w₁.view := h₂.view
    have haligned : Aligned { w₂ with loop := { w₂.loop with blocksQuantity := 0 } } := by
      refine Aligned.of_cursor (h₂.txn.trans hidle) ?_ rfl
      show w₂.loop.lastProcessedBlockIndex = max w₂.view.getLastBlockIndex _
      rw [h₂.done rfl, hview]
    unfold resetBatch
    rw [wp_bind, wp_updateLoop_iff, continuesWith_ok]
    refine Proc.wp_bind.mpr (wp_sleep ⟨nofun, nofun⟩ ⟨fun _ => ?_, nofun⟩)
    exact (still_tock env _).aligned haligned
  · rw [continuesWith_ok, if_pos rfl, wp_bind, wp_observe, continuesWith_ok, wp_bind,
      wp_updateLoop_iff, continuesWith_ok]
    -- the purge and the counters leave the committed blocks alone
    refine wp_seq (stays_purgeExpiredAfterCommit n time env _ trivial) ?_
      (fun e w' _ => ⟨nofun, nofun⟩)
    rintro _ w₂ ⟨hpurges, -⟩
    refine ⟨nofun, fun _ => ⟨hpurges.txn, hpurges.blocks, rfl, hpurges.parked.trans ?_⟩⟩
    exact tock_mem_parked env w

theorem getLastBlockIndex_congr {weight : String → String} {t t' : Tables weight}
    (h : t'.blocks = t.blocks) : t'.getLastBlockIndex = t.getLastBlockIndex := by
  unfold Tables.getLastBlockIndex ChainRows.getLastBlockIndex
  rw [h]

theorem wp_advance {t : Tables cfg.weight} (h : Filled n t w) (time : Int) :
    (advance rules n time : Decoder cfg PassEnd).wp env w (fun r w' =>
      r ≠ .ok .rollback ∧ (r = .ok .retried → Aligned w') ∧
      (r = .ok .stored → Agrees w' ∧ w'.mem.reorgHaltParked = w.mem.reorgHaltParked)) := by
  unfold advance
  rw [wp_bind, wp_get, continuesWith_ok]
  by_cases hfull : completesBatch n w = true
  · rw [if_pos hfull]
    refine wp_seq (wp_commitBlockBatch h time) ?_ (fun e w' _ => ⟨nofun, nofun, nofun⟩)
    rintro committed w₁ ⟨hfailed, hdone⟩
    cases committed with
    | false =>
      rw [if_neg (by decide)]
      exact ⟨nofun, fun _ => hfailed rfl, nofun⟩
    | true =>
      obtain ⟨hidle, hblocks, hbatch, hparked⟩ := hdone rfl
      rw [if_pos rfl]
      refine ⟨nofun, nofun, fun _ => ⟨?_, hparked⟩⟩
      -- committed: nothing is open, so the stored tip is what is seen
      have hview : w₁.view = w₁.db := hidle.view
      refine (Aligned.of_cursor (w := { w₁ with
        mem  := { w₁.mem with lastProcessedBlockIndex := n }
        loop := { w₁.loop with
          blocksQuantity := w₁.loop.blocksQuantity + 1, lastProcessedBlockIndex := n } }) hidle ?_ ?_).2
      · show n = max w₁.view.getLastBlockIndex _
        rw [hview, getLastBlockIndex_congr hblocks, h.tip]
      · show w₁.loop.blocksQuantity + 1 = 0
        rw [hbatch]
        rfl
  -- the batch stays open, and the tip is seen through it
  · rw [if_neg hfull, wp_bind, wp_pure, continuesWith_ok, if_pos rfl]
    refine ⟨nofun, nofun, fun _ => ⟨⟨?_, ?_, ?_⟩, rfl⟩⟩
    · show n = max w.view.getLastBlockIndex _
      unfold World.view
      rw [h.txn]
      exact h.tip.symm
    · show 0 ≤ w.loop.blocksQuantity + 1
      have := h.counted
      omega
    · show 0 < w.loop.blocksQuantity + 1 ↔ w.txn ≠ none
      have := h.counted
      rw [h.txn]
      simp
      omega

/-- The height behind the cursor is the tip of the tables it is stored on top of. -/
theorem tip_ingestBlock {t : Tables cfg.weight} {quarantined : Nat → Bool} {hash : Hash}
    {block : RawBlock} {index : Int} {d : Draft cfg.weight}
    (hchained : Chained cfg.startBlockIndex t)
    (hn : n = max t.getLastBlockIndex (cfg.startBlockIndex - 1) + 1)
    (h : Draft.ingestBlock rules quarantined n hash block t index = some d) :
    max d.tables.getLastBlockIndex (cfg.startBlockIndex - 1) = n :=
  ChainRows.chainTip_push hchained.interval cfg.start_nonneg hn
    (commits_ingestBlock h).pass.mem_heights

/-- The transaction of a pass is open once it is begun. -/
theorem wp_beginBatch (ha : Agrees w) :
    (if w.loop.blocksQuantity = 0 then beginTransaction else pure () : Decoder cfg Unit).wp env w
      (fun r w' => r = .ok () → w'.txn = some w.view ∧ w'.loop = w.loop ∧
        w'.mem.reorgHaltParked = w.mem.reorgHaltParked) := by
  by_cases hzero : w.loop.blocksQuantity = 0
  · have hnone : w.txn = none := by
      by_contra hopen
      have := ha.batch.mpr hopen
      omega
    have hidle : Idle w := hnone
    rw [if_pos hzero]
    refine wp_beginTransaction hnone nofun nofun (fun _ => ⟨?_, tock_loop env w, tock_mem_parked env w⟩)
    rw [hidle.view, tock_db]
  · rw [if_neg hzero]
    refine wp_pure.mpr (fun _ => ⟨?_, rfl, rfl⟩)
    have hpos : 0 < w.loop.blocksQuantity := by
      have := ha.counted
      omega
    unfold World.view
    cases htxn : w.txn with
    | none => exact absurd htxn (ha.batch.mp hpos)
    | some t => rfl

/-- **A pass from an aligned loop**: rolled back, it leaves no transaction open;
    stored, it leaves the cursor at the block. -/
theorem wp_storeBlock (hI : Intact cfg w) (ha : Agrees w)
    (hn : n = w.loop.lastProcessedBlockIndex + 1) (hash : Hash) (block : RawBlock) :
    (storeBlock rules n hash block : Decoder cfg PassEnd).wp env w (fun r w' =>
      (r = .ok .rollback → Idle w') ∧ (r = .ok .retried → Aligned w') ∧
      (r = .ok .stored → Agrees w' ∧ w'.mem.reorgHaltParked = w.mem.reorgHaltParked)) := by
  unfold storeBlock
  rw [wp_bind, wp_get, continuesWith_ok, wp_bind, wp_observe, continuesWith_ok, wp_bind, wp_get,
    continuesWith_ok]
  generalize hlog : ({ w with log := .began n w.view :: w.log } : World cfg.weight) = w₁
  have ha₁ : Agrees w₁ := by rw [← hlog]; exact ⟨ha.cursor, ha.counted, ha.batch⟩
  have hview₁ : w₁.view = w.view := by rw [← hlog]; rfl
  have hloop₁ : w₁.loop = w.loop := by rw [← hlog]
  have hparked₁ : w₁.mem = w.mem := by rw [← hlog]
  refine wp_seq (wp_beginBatch ha₁) ?_ (fun e w' _ => ⟨nofun, nofun, nofun⟩)
  intro _ w₂ h₂
  obtain ⟨htxn, hloop, hparked⟩ := h₂ rfl
  have hcarries : Carries w.view w₂.loop.lastProcessedTxIndex w₂.loop.insertQuarantine w₂ :=
    ⟨by rw [htxn, hview₁], rfl, rfl⟩
  refine wp_seq (wp_fillBlock hcarries n hash block) ?_ (fun e w' _ => ⟨nofun, nofun, nofun⟩)
  rintro a w₃ ⟨hframe, ⟨d, hingest, rfl, hd⟩ | ⟨rfl, hnone⟩⟩
  · -- the block is filled
    have hfilled : Filled n d.tables w₃ := by
      refine ⟨hd.txn, tip_ingestBlock hI.view ?_ hingest, ?_⟩
      · rw [hn, ha.cursor]
      · rw [hframe.batch, hloop, hloop₁]
        exact ha.counted
    refine wp_mono (wp_advance hfilled _) ?_
    rintro r w' ⟨hnot, hretried, hstored⟩
    refine ⟨fun hr => absurd hr hnot, hretried, fun hr => ?_⟩
    obtain ⟨hagrees, hsame⟩ := hstored hr
    refine ⟨hagrees, ?_⟩
    rw [hsame, hframe.parked, hparked, hparked₁]
  · exact ⟨fun _ => hnone, nofun, nofun⟩

theorem maintains_storeBlock_end (hash : Hash) (block : RawBlock) (w₀ : World cfg.weight) :
    Maintains (images cfg)
      (fun w => Extending n block.prevHash w ∧ n = w.loop.lastProcessedBlockIndex + 1 ∧ Still w₀ w)
      (storeBlock rules n hash block : Decoder cfg PassEnd) (StoredEnd w₀) := by
  rintro env w hI ⟨hextending, hn, hstill⟩
  have hkeeps := @maintains_storeBlock cfg rules n hash block env w hI hextending
  by_cases ha : Agrees w₀
  · refine wp_mono (wp_and hkeeps (wp_storeBlock hI (hstill.agrees ha) hn hash block)) ?_
    rintro r w' ⟨⟨hends, hlow⟩, hrollback, hretried, hstored⟩
    refine ⟨hends, fun e he => ?_⟩
    cases e with
    | rollback => exact fun _ => hrollback he
    | retried  => exact ⟨hlow _ he (by decide), fun _ => hretried he⟩
    | stored   =>
      obtain ⟨hagrees, hparked⟩ := hstored he
      exact ⟨hlow _ he (by decide), fun _ => ⟨hagrees, hparked.trans hstill.parked⟩⟩
  · refine wp_mono hkeeps ?_
    rintro r w' ⟨hends, hlow⟩
    refine ⟨hends, fun e he => ?_⟩
    cases e with
    | rollback => exact fun h => absurd h ha
    | retried  => exact ⟨hlow _ he (by decide), fun h => absurd h ha⟩
    | stored   => exact ⟨hlow _ he (by decide), fun h => absurd h ha⟩

end Pass

/-! ## Section 4: The rollback -/

/-- What a rollback leaves of the state `w₀` it began in. -/
structure RolledFrom (w₀ w : World cfg.weight) : Prop where
  cursor  : w.loop.lastProcessedBlockIndex = w₀.loop.lastProcessedBlockIndex
  batch   : w.loop.blocksQuantity = w₀.loop.blocksQuantity
  deletes : w₀.deletes ≤ w.deletes
  tip     : w.deletes = w₀.deletes → w.db.getLastBlockIndex = w₀.db.getLastBlockIndex

theorem RolledFrom.low {w : World cfg.weight} (h : RolledFrom w₀ w) (hlow : CursorLow cfg w₀) :
    CursorLow cfg w := by
  unfold CursorLow
  rw [h.cursor]
  exact hlow

theorem Still.rolledFrom {w : World cfg.weight} (h : Still w₀ w) : RolledFrom w₀ w :=
  ⟨h.cursor, h.batch, h.deletes.ge, fun _ => by rw [h.db]⟩

theorem RolledFrom.still {w w' : World cfg.weight} (h : RolledFrom w₀ w) (hs : Still w w') :
    RolledFrom w₀ w' where
  cursor  := hs.cursor.trans h.cursor
  batch   := hs.batch.trans h.batch
  deletes := hs.deletes ▸ h.deletes
  tip     := by
    rw [hs.deletes, hs.db]
    exact h.tip

/-- A rollback that deleted nothing leaves the agreement it found. -/
theorem RolledFrom.agrees {w : World cfg.weight} (h : RolledFrom w₀ w) (hidle : Idle w)
    (hidle₀ : Idle w₀) (hsame : w.deletes = w₀.deletes) (ha : Agrees w₀) : Agrees w := by
  have hnone₀ : w₀.txn = none := hidle₀
  have hbatch : ¬ 0 < w₀.loop.blocksQuantity := by
    rw [ha.batch, hnone₀]
    simp
  refine (Aligned.of_cursor hidle ?_ ?_).2
  · rw [h.cursor, ha.cursor, hidle.view, hidle₀.view, h.tip hsame]
  · have hcounted := ha.counted
    rw [h.batch]
    omega

theorem rolls_rolledFrom : Rolls (RolledFrom w₀) where
  steady := by
    intro w w' h hs
    obtain ⟨news, hlog, hanswers⟩ := hs.log
    have hnone : news.countP Observed.isDelete = 0 := by
      refine List.countP_eq_zero.mpr (fun o ho => ?_)
      have hanswer := hanswers o ho
      cases o <;> simp_all [Observed.isAnswer, Observed.isDelete]
    have hdeletes : w'.deletes = w.deletes := by
      unfold World.deletes
      rw [hlog, List.countP_append, hnone, Nat.zero_add]
    refine ⟨by rw [hs.loop]; exact h.cursor, by rw [hs.loop]; exact h.batch, ?_, ?_⟩
    · rw [hdeletes]
      exact h.deletes
    · intro hsame
      rw [← h.tip (hdeletes.symm.trans hsame)]
      exact getLastBlockIndex_congr (congrArg ChainRows.blocks hs.rows)
  deleted := by
    intro blockIndex hash w w' h hd
    have hdeletes : w'.deletes = w.deletes + 1 := by
      unfold World.deletes
      rw [hd.log, List.countP_cons]
      rfl
    have hle := h.deletes
    refine ⟨by rw [hd.loop]; exact h.cursor, by rw [hd.loop]; exact h.batch, by omega, ?_⟩
    intro hsame
    omega

/-- What a turn from `w₀` leaves, by how it ends. -/
structure Ended (w₀ : World cfg.weight) (turn : Turn) (w : World cfg.weight) : Prop where
  low    : CursorLow cfg w
  parses : turn ≠ .held ∧ turn ≠ .resumed
  waited : turn = .waited → RolledFrom w₀ w ∧ Idle w
  parked : turn = .parked → w.mem.reorgHaltParked = true ∧ Idle w
  rolled : turn = .rollback → Agrees w₀ → Idle w
  other  : turn ≠ .waited → turn ≠ .parked → Agrees w₀ →
    Agrees w ∧ (Idle w ∨ w.mem.reorgHaltParked = w₀.mem.reorgHaltParked)

/-- The endings behind which the cursor has been re-derived. -/
theorem Ended.of_realigned {w : World cfg.weight} {turn : Turn}
    (hturn : turn = .turned ∨ turn = .rollback)
    (h : Realigned (fun w => Agrees w₀ → Idle w) w) : Ended w₀ turn w where
  low    := h.1
  parses := by rcases hturn with rfl | rfl <;> exact ⟨nofun, nofun⟩
  waited := by rcases hturn with rfl | rfl <;> exact nofun
  parked := by rcases hturn with rfl | rfl <;> exact nofun
  rolled := by
    intro _ ha
    obtain ⟨-, w₁, hidle, haligned⟩ := h
    exact (haligned (hidle ha)).1
  other  := by
    intro _ _ ha
    obtain ⟨-, w₁, hidle, haligned⟩ := h
    have hw := haligned (hidle ha)
    exact ⟨hw.2, .inl hw.1⟩

/-- A turn that came to nothing. -/
theorem Still.turned {w : World cfg.weight} (h : Still w₀ w) (hlow : CursorLow cfg w₀) :
    Ended w₀ .turned w where
  low    := h.low hlow
  parses := ⟨nofun, nofun⟩
  waited := nofun
  parked := nofun
  rolled := nofun
  other  := fun _ _ ha => ⟨h.agrees ha, .inr h.parked⟩

/-- The state a rollback refuses in. -/
def Refused (w₀ w : World cfg.weight) : Prop := Idle w ∧ RolledFrom w₀ w

theorem Refused.still (w w' : World cfg.weight) (hs : Still w w') (h : Refused w₀ w) :
    Refused w₀ w' :=
  ⟨hs.idle h.1, h.2.still hs⟩

theorem maintains_waitForProof (hlow : CursorLow cfg w₀) (err : Failure) (cls : RefusalClass) :
    Maintains (images cfg) (Refused w₀) (waitForProof err cls : Decoder cfg Turn) (Ended w₀) := by
  refine maintains_bind ((onlyLooks_setReorgWait err).maintains Refused.still) (fun _ => ?_)
  refine maintains_bind ((onlyLooks_updateLoop (by intro _; rfl) (by intro _; rfl)).maintains
    Refused.still) (fun _ => ?_)
  refine maintains_bind (onlyLooks_sleep.maintains Refused.still) (fun _ => maintains_pure ?_)
  intro w h
  exact ⟨h.2.low hlow, ⟨nofun, nofun⟩, fun _ => ⟨h.2, h.1⟩, nofun, nofun, fun hne => absurd rfl hne⟩

/-- The images, with no transaction open and the cursor not below the start height. -/
def resting (cfg : Config) : Keep (World cfg.weight) where
  live    := fun w => Intact cfg w ∧ Idle w ∧ CursorLow cfg w
  durable := fun w => Chained cfg.startBlockIndex w.db

theorem maintains_parkOrRethrow (hlow : CursorLow cfg w₀) (err : Failure) :
    Maintains (images cfg) (Refused w₀) (parkOrRethrow err : Decoder cfg Turn) (Ended w₀) := by
  refine maintains_ite (fun _ => maintains_waitForProof hlow err _) (fun _ => ?_)
  refine maintains_ite (fun _ => maintains_throw err) (fun _ => ?_)
  -- an unreadable tip keeps the cursor, and the loop parks anyway
  have hrest : ∀ w w' : World cfg.weight, Still w w' → Idle w ∧ CursorLow cfg w →
      Idle w' ∧ CursorLow cfg w' := fun w w' hs h => ⟨hs.idle h.1, hs.low h.2⟩
  refine maintains_bind (R := fun _ w => Idle w ∧ CursorLow cfg w) ?_ (fun _ => ?_)
  · refine maintains_guard (L := resting cfg) (R := fun _ _ => True) ?_ ?_ (fun _ h => h.1)
      (fun _ h => h) (fun _ _ h _ => h.2) (fun _ => maintains_pure (fun _ h => h.2))
    · exact fun w hI h => ⟨hI, h.1, h.2.low hlow⟩
    refine maintains_bind (R := fun _ _ => True) ?_ (fun _ => maintains_modify ?_)
    · intro env w hK _
      refine wp_mono (wp_deriveCursors w) ?_
      intro r w' h
      have hlive : (resting cfg).live w' := ⟨h.intact hK.1, h.txn.trans hK.2.1, h.low hK.2.2⟩
      refine ⟨?_, fun _ _ => trivial⟩
      match r with
      | .ok ()              => exact hlive
      | .error (.thrown e)  => exact hlive
      | .error .unfinished  => exact hlive
      | .error .crashed     => exact hlive.1.db
    · exact fun w hK _ => ⟨⟨hK.1.congr rfl (.inl rfl), hK.2.1, hK.2.2⟩, trivial⟩
  refine maintains_bind (OnlyLooks.maintains ?_ hrest) (fun _ => ?_)
  · exact (onlyLooks_pure _).ite onlyLooks_readRolledBackAboveTip
  refine maintains_get_bind (fun w _ _ => ?_)
  refine maintains_bind (R := fun _ w => (Idle w ∧ CursorLow cfg w) ∧ w.mem.reorgHaltParked = true)
    (maintains_modify ?_) (fun _ => maintains_pure ?_)
  · rintro w' hI ⟨h, -⟩
    unfold World.park
    by_cases hparked : w'.mem.reorgHaltParked = true
    · rw [if_pos hparked]
      exact ⟨hI, h, hparked⟩
    · rw [if_neg hparked]
      exact ⟨hI.congr rfl (.inl rfl), h, rfl⟩
  · intro w' h
    exact ⟨h.1.2, ⟨nofun, nofun⟩, nofun, fun _ => ⟨h.2, h.1.1⟩, nofun, fun _ hne => absurd rfl hne⟩

/-- **A rollback of the loop**, whatever it answers to its refusals. -/
theorem maintains_reconcile (rounds : Nat) {refused : Failure → Decoder cfg Turn}
    (hrefused : ∀ err, Maintains (images cfg) (Refused w₀) (refused err) (Ended w₀)) :
    Maintains (images cfg) (Refused w₀) (reconcile rounds refused) (Ended w₀) := by
  refine maintains_get_bind (fun w _ _ => ?_)
  refine maintains_bind (R := fun r w => r.elim (Idle w) (fun turn => Ended w₀ turn w)) ?_
    (fun r => ?_)
  · refine maintains_guard (L := rolling (RolledFrom w₀)) (R := fun r w => r = none ∧ Idle w)
      ?_ ?_ ?_ (fun _ h => h) ?_ (fun err => ?_)
    · exact fun w' hI h => ⟨hI.db, h.1.1, h.1.2⟩
    · refine maintains_bind ((maintains_verifyReorg rolls_rolledFrom rounds _).weaken
        (fun _ hK _ => hK.2.1) (fun _ _ h => h)) (fun _ => maintains_pure ?_)
      exact fun _ h => ⟨rfl, h⟩
    · intro w' hK
      have hnone : w'.txn = none := hK.2.1
      exact ⟨hK.1, fun t ht => by rw [hnone] at ht; cases ht⟩
    · rintro _ w' _ ⟨rfl, h⟩
      exact h
    · refine maintains_bind ((hrefused err).weaken (fun _ _ h => h.2) (fun _ _ h => h)) ?_
      exact fun turn => maintains_pure (fun _ h => h)
  cases r with
  | some turn => exact maintains_pure (fun _ h => h)
  | none =>
    refine maintains_bind (onlyLooks_clearReorgWait.maintains (P := Idle)
      (fun _ _ hs h => hs.idle h)) (fun _ => ?_)
    refine maintains_bind maintains_rederive (fun _ => ?_)
    refine maintains_bind maintains_resetBatch (fun _ => maintains_pure ?_)
    rintro w' ⟨hlow, w₁, hidle, haligned⟩
    exact .of_realigned (.inl rfl) ⟨hlow, w₁, fun _ => hidle, haligned⟩

/-- The open transaction is ended before a rollback. -/
theorem maintains_endBatch :
    Maintains (images cfg) (Still w₀) (endTransaction : Decoder cfg Unit) (fun _ => Refused w₀) := by
  intro env w hI hs
  have hgone : Intact cfg { w.tock env with txn := none } :=
    (hI.tock env).congr rfl (.inr rfl)
  refine wp_endTransaction ⟨hI.db, nofun⟩ (fun hnone => ⟨hI, fun _ _ => ?_⟩) ⟨hgone, nofun⟩
    ⟨hgone, fun _ _ => ?_⟩
  · exact ⟨hnone, hs.rolledFrom⟩
  · have hrolled := (hs.trans (still_tock env w)).rolledFrom
    exact ⟨rfl, hrolled.cursor, hrolled.batch, hrolled.deletes, hrolled.tip⟩

end XChainDecoder
