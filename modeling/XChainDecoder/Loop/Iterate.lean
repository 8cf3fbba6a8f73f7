import XChainDecoder.Loop.Cursor

/-! # One turn, by the way it ends

    The body of the loop from the state it begins in: what a turn leaves of the
    images, the cursor and the open transaction for each of its endings. -/

namespace XChainDecoder

open Proc Tables

variable {cfg : Config} {α : Type} {rules : Rules} {w₀ : World cfg.weight}

/-! ## Section 1: The tip -/

/-- Nothing was done yet, or the turn is over. -/
def StillOrEnded (w₀ : World cfg.weight) (r : Option Turn) (w : World cfg.weight) : Prop :=
  match r with
  | some turn => Ended w₀ turn w
  | none      => Still w₀ w

theorem OnlyLooks.still {m : Decoder cfg α} (hm : OnlyLooks m) :
    Maintains (images cfg) (Still w₀) m (fun _ => Still w₀) :=
  hm.maintains (fun _ _ hs h => h.trans hs)

theorem maintains_endAndReconcile (rounds : Nat) {refused : Failure → Decoder cfg Turn}
    (hrefused : ∀ err, Maintains (images cfg) (Refused w₀) (refused err) (Ended w₀)) :
    Maintains (images cfg) (Still w₀) (do endTransaction; reconcile rounds refused)
      (Ended w₀) :=
  maintains_bind maintains_endBatch (fun _ => maintains_reconcile rounds hrefused)

theorem maintains_reconcileEqualHeightTip (hlow : CursorLow cfg w₀) (rounds : Nat) :
    Maintains (images cfg) (Still w₀) (reconcileEqualHeightTip rounds : Decoder cfg (Option Turn))
      (StillOrEnded w₀) := by
  refine maintains_bind (onlyLooks_updateLoop (by intro _; rfl) (by intro _; rfl)).still (fun _ => ?_)
  refine maintains_get_bind (fun w _ _ => ?_)
  refine Maintains.weaken (P := Still w₀) ?_ (fun _ _ h => h.1) (fun _ _ h => h)
  refine maintains_bind (OnlyLooks.still ?_) (fun read => ?_)
  · refine OnlyLooks.tryCatch ?_ (fun _ => onlyLooks_pure _)
    exact (onlyLooks_getBlockHash _).bind (fun _ => (onlyLooks_query _).bind (fun _ => onlyLooks_pure _))
  match read with
  | none => exact maintains_pure (fun _ h => h)
  | some (nodeHash, storedHash) =>
    refine maintains_ite (fun _ => ?_) (fun _ => ?_)
    · exact maintains_bind onlyLooks_clearReorgWait.still (fun _ => maintains_pure (fun _ h => h))
    refine maintains_bind (onlyLooks_equalHeightSwapHolds _ _ _).still (fun holds => ?_)
    refine maintains_ite (fun _ => ?_) (fun _ => maintains_pure (fun _ h => h))
    refine maintains_bind maintains_endBatch (fun _ => ?_)
    refine maintains_bind (maintains_reconcile rounds (maintains_parkOrRethrow hlow)) ?_
    exact fun turn => maintains_pure (fun _ h => h)

theorem maintains_waitAtTip (hlow : CursorLow cfg w₀) (rounds : Nat) :
    Maintains (images cfg) (Still w₀) (waitAtTip rounds : Decoder cfg Turn) (Ended w₀) := by
  refine maintains_get_bind (fun w _ _ => ?_)
  refine Maintains.weaken (P := Still w₀) ?_ (fun _ _ h => h.1) (fun _ _ h => h)
  refine maintains_bind (R := StillOrEnded w₀) ?_ (fun reconciled => ?_)
  · refine maintains_ite (fun _ => maintains_reconcileEqualHeightTip hlow rounds) (fun _ => ?_)
    exact maintains_pure (fun _ h => h)
  cases reconciled with
  | some turn => exact maintains_pure (fun _ h => h)
  | none =>
    refine maintains_bind onlyLooks_sleep.still (fun _ => maintains_pure (fun _ h => ?_))
    exact h.turned hlow

theorem maintains_refuseOrphanBlocks (hlow : CursorLow cfg w₀) (err : Failure) :
    Maintains (images cfg) (Refused w₀) (refuseOrphanBlocks err : Decoder cfg Turn) (Ended w₀) :=
  maintains_ite (fun _ => maintains_waitForProof hlow err _)
    (fun _ => maintains_parkOrRethrow hlow err)

theorem maintains_reconcileTipRegression (hlow : CursorLow cfg w₀) (rounds : Nat) (cursor : Int) :
    Maintains (images cfg) (Still w₀) (reconcileTipRegression rounds cursor : Decoder cfg Turn)
      (Ended w₀) := by
  have hturned : ∀ w, Still w₀ w → Ended w₀ .turned w := fun w h => h.turned hlow
  refine maintains_get_bind (fun w _ _ => ?_)
  refine Maintains.weaken (P := Still w₀) ?_ (fun _ _ h => h.1) (fun _ _ h => h)
  refine maintains_ite (fun _ => ?_) (fun _ => ?_)
  · exact maintains_bind onlyLooks_sleep.still (fun _ => maintains_pure hturned)
  refine maintains_bind (onlyLooks_settleTipBelow cursor).still (fun below => ?_)
  refine maintains_ite (fun _ => ?_) (fun _ => maintains_pure hturned)
  exact maintains_endAndReconcile rounds (maintains_refuseOrphanBlocks hlow)

theorem maintains_refreshChainTip (hlow : CursorLow cfg w₀) (rounds : Nat) (cursor : Int) :
    Maintains (images cfg) (Still w₀) (refreshChainTip rounds cursor : Decoder cfg (Option Turn))
      (StillOrEnded w₀) := by
  refine maintains_bind onlyLooks_fetchChainTip.still (fun fetched => ?_)
  refine maintains_ite (fun _ => ?_) (fun _ => maintains_pure ?_)
  · refine maintains_get_bind (fun w _ _ => ?_)
    refine Maintains.weaken (P := Still w₀) ?_ (fun _ _ h => h.1) (fun _ _ h => h)
    refine maintains_ite (fun _ => ?_) (fun _ => maintains_pure (fun _ h => h))
    refine maintains_bind (maintains_reconcileTipRegression hlow rounds cursor) ?_
    exact fun turn => maintains_pure (fun _ h => h)
  · exact fun w h => h.turned hlow

/-! ## Section 2: The next block -/

/-- What a turn that took the next block leaves; a pass that is rolled back is
    followed by a reset. -/
def BlockEnd (w₀ : World cfg.weight) (turn : Turn) (w : World cfg.weight) : Prop :=
  match turn with
  | .rollback => Agrees w₀ → Idle w
  | turn      => Ended w₀ turn w

/-- Where no reorg was detected, the block extends the one stored below it. -/
theorem maintains_detectReorgAtBlock (hlow : CursorLow cfg w₀) (rounds : Nat) (height : Int)
    (prev : Hash) :
    Maintains (images cfg) (Still w₀)
      (detectReorgAtBlock rounds height prev : Decoder cfg (Option Turn))
      (fun r w => StillOrEnded w₀ r w ∧ (r = none → w.view.hashAt (height - 1) = some prev)) := by
  have hpause : Maintains (images cfg) (Still w₀) (do sleep; return some .turned :
      Decoder cfg (Option Turn))
      (fun r w => StillOrEnded w₀ r w ∧ (r = none → w.view.hashAt (height - 1) = some prev)) :=
    maintains_bind onlyLooks_sleep.still (fun _ => maintains_pure
      (fun _ h => ⟨h.turned hlow, nofun⟩))
  refine maintains_bind (R := fun read w => Still w₀ w ∧ ∀ block, read = some block →
    w.view.getBlockByIndex (height - 1) = some block) ?_ (fun read => ?_)
  · intro env w hI hs
    have hticked : Still w₀ (w.tock env) := hs.trans (still_tock env w)
    refine wp_tryCatch.mpr (wp_query ⟨hI.db, nofun⟩ ⟨hI.tock env, fun read hread => ?_⟩
      ⟨hI.tock env, fun read hread => ?_⟩)
    · cases hread
      exact ⟨hticked, nofun⟩
    · refine ⟨hticked, fun block hblock => ?_⟩
      cases hread
      rw [tock_view]
      exact hblock
  cases read with
  | none => exact hpause.weaken (fun _ _ h => h.1) (fun _ _ h => h)
  | some previousBlock =>
    refine maintains_ite (fun _ => ?_) (fun hsame => maintains_pure (fun w h => ⟨h.1, fun _ => ?_⟩))
    · refine maintains_bind ((maintains_endAndReconcile rounds
        (maintains_parkOrRethrow hlow)).weaken (fun _ _ h => h.1) (fun _ _ h => h)) ?_
      exact fun turn => maintains_pure (fun _ h => ⟨h, nofun⟩)
    · unfold hashAt
      rw [h.2 previousBlock rfl]
      exact not_not.mp hsame

theorem Ended.blockEnd {turn : Turn} {w : World cfg.weight} (h : Ended w₀ turn w) :
    BlockEnd w₀ turn w := by
  cases turn with
  | rollback => exact h.rolled rfl
  | held     => exact h
  | resumed  => exact h
  | parked   => exact h
  | waited   => exact h
  | turned   => exact h

theorem maintains_ingestNextBlock (hlow : CursorLow cfg w₀) (rounds : Nat) :
    Maintains (images cfg) (Still w₀) (ingestNextBlock rules rounds : Decoder cfg Turn)
      (BlockEnd w₀) := by
  have hturned : ∀ w, Still w₀ w → BlockEnd w₀ .turned w := fun w h => h.turned hlow
  refine maintains_get_bind (fun w _ hs => ?_)
  have hcursor := hs.cursor
  generalize hheight : w.loop.lastProcessedBlockIndex + 1 = height
  refine Maintains.weaken (P := Still w₀) ?_ (fun _ _ h => h.1) (fun _ _ h => h)
  refine maintains_bind (onlyLooks_fetchNextBlock height).still (fun fetched => ?_)
  match fetched with
  | none => exact maintains_pure hturned
  | some (_, none) =>
    -- the batch is rolled back, and the block is asked for again
    refine maintains_bind maintains_endBatch (fun _ => ?_)
    refine maintains_bind maintains_rederive (fun _ => ?_)
    refine maintains_bind maintains_resetBatch (fun _ => ?_)
    refine maintains_bind (onlyLooks_sleep.maintains Still.realigned) (fun _ => maintains_pure ?_)
    rintro w' ⟨hlow', w₁, hrefused, haligned⟩
    exact (Ended.of_realigned (.inl rfl)
      ⟨hlow', w₁, fun _ => hrefused.1, haligned⟩ : Ended w₀ .turned w')
  | some (hash, some block) =>
    refine maintains_bind (R := fun r w => StillOrEnded w₀ r w ∧ (r = none →
      cfg.startBlockIndex < height → w.view.hashAt (height - 1) = some block.prevHash)) ?_
      (fun detected => ?_)
    · refine maintains_ite (fun _ => ?_) (fun hfirst => maintains_pure ?_)
      · exact (maintains_detectReorgAtBlock hlow rounds height block.prevHash).weaken
          (fun _ _ h => h) (fun _ _ h => ⟨h.1, fun hr _ => h.2 hr⟩)
      · exact fun _ h => ⟨h, fun _ habove => absurd habove hfirst⟩
    cases detected with
    | some turn => exact maintains_pure (fun _ h => h.1.blockEnd)
    | none =>
      have hextending : ∀ w', (Still w₀ w' ∧ (none = (none : Option Turn) →
          cfg.startBlockIndex < height → w'.view.hashAt (height - 1) = some block.prevHash)) →
          Extending height block.prevHash w' ∧ height = w'.loop.lastProcessedBlockIndex + 1 ∧
            Still w₀ w' := by
        intro w' h
        refine ⟨⟨?_, h.2 rfl⟩, ?_, h.1⟩
        · have hge : cfg.startBlockIndex - 1 ≤ w₀.loop.lastProcessedBlockIndex := hlow
          omega
        · rw [h.1.cursor, ← hheight, hcursor]
      refine maintains_bind (onlyLooks_clearReorgWait.maintains ?_) (fun _ => ?_)
      · intro w₁ w₂ hs₁ h
        refine ⟨h.1.trans hs₁, ?_⟩
        rw [hs₁.view]
        exact h.2
      refine maintains_bind ((maintains_storeBlock_end hash block w₀).weaken
        (fun w' _ h => hextending w' h) (fun _ _ h => h)) (fun e => ?_)
      cases e with
      | rollback => exact maintains_pure (fun _ h => h)
      | retried =>
        refine maintains_pure (fun _ h => ⟨h.1, ⟨nofun, nofun⟩, nofun, nofun, nofun, fun _ _ ha => ?_⟩)
        have haligned := h.2 ha
        exact ⟨haligned.2, .inl haligned.1⟩
      | stored =>
        refine maintains_pure (fun _ h => ⟨h.1, ⟨nofun, nofun⟩, nofun, nofun, nofun, fun _ _ ha => ?_⟩)
        obtain ⟨hagrees, hparked⟩ := h.2 ha
        exact ⟨hagrees, .inr hparked⟩

/-! ## Section 3: The turn -/

/-- **A turn that is not held by a park.** -/
theorem maintains_parseTurn (hlow : CursorLow cfg w₀) (rounds : Nat) :
    Maintains (images cfg) (Still w₀) (parseTurn rules rounds : Decoder cfg Turn) (Ended w₀) := by
  refine maintains_bind onlyLooks_dateNow.still (fun now => maintains_get_bind (fun w _ _ => ?_))
  refine Maintains.weaken (P := Still w₀) ?_ (fun _ _ h => h.1) (fun _ _ h => h)
  refine maintains_bind (R := StillOrEnded w₀) ?_ (fun refreshed => ?_)
  · exact maintains_ite (fun _ => maintains_refreshChainTip hlow rounds _)
      (fun _ => maintains_pure (fun _ h => h))
  cases refreshed with
  | some turn => exact maintains_pure (fun _ h => h)
  | none =>
    refine maintains_get_bind (fun w _ _ => ?_)
    refine Maintains.weaken (P := Still w₀) ?_ (fun _ _ h => h.1) (fun _ _ h => h)
    refine maintains_ite (fun _ => maintains_waitAtTip hlow rounds) (fun _ => ?_)
    refine maintains_bind (maintains_ingestNextBlock hlow rounds) (fun turn => ?_)
    cases turn with
    | rollback =>
      refine maintains_bind (R := fun _ => Realigned (fun w => Agrees w₀ → Idle w)) ?_ (fun _ => ?_)
      · refine maintains_bind maintains_rederive (fun _ => maintains_bind maintains_resetBatch ?_)
        exact fun _ => onlyLooks_sleep.maintains Still.realigned
      · exact maintains_pure (fun _ h => .of_realigned (.inr rfl) h)
    | held    => exact maintains_pure (fun _ h => h)
    | resumed => exact maintains_pure (fun _ h => h)
    | parked  => exact maintains_pure (fun _ h => h)
    | waited  => exact maintains_pure (fun _ h => h)
    | turned  => exact maintains_pure (fun _ h => h)

/-! ## Section 4: The park -/

/-- Still, apart from the park. -/
structure Parking (w₀ w : World cfg.weight) : Prop where
  db      : w.db = w₀.db
  txn     : w.txn = w₀.txn
  cursor  : w.loop.lastProcessedBlockIndex = w₀.loop.lastProcessedBlockIndex
  batch   : w.loop.blocksQuantity = w₀.loop.blocksQuantity
  deletes : w.deletes = w₀.deletes

theorem Parking.still {w w' : World cfg.weight} (h : Parking w₀ w) (hs : Still w w') :
    Parking w₀ w' :=
  ⟨hs.db.trans h.db, hs.txn.trans h.txn, hs.cursor.trans h.cursor, hs.batch.trans h.batch,
    hs.deletes.trans h.deletes⟩

/-- A park that is as it was is no change. -/
theorem Parking.toStill {w : World cfg.weight} (h : Parking w₀ w)
    (hparked : w.mem.reorgHaltParked = w₀.mem.reorgHaltParked) : Still w₀ w :=
  ⟨h.db, h.txn, h.cursor, h.batch, hparked, h.deletes⟩

/-- The park is `p`, and nothing else has changed. -/
def ParkedAs (w₀ : World cfg.weight) (p : Bool) (w : World cfg.weight) : Prop :=
  Parking w₀ w ∧ w.mem.reorgHaltParked = p

theorem OnlyLooks.parkedAs {m : Decoder cfg α} (hm : OnlyLooks m) {p : Bool} :
    Maintains (images cfg) (ParkedAs w₀ p) m (fun _ => ParkedAs w₀ p) :=
  hm.maintains (fun _ _ hs h => ⟨h.1.still hs, hs.parked.trans h.2⟩)

theorem maintains_parkOnReorgHalt {p : Bool} (height : Int) (unread : Bool) :
    Maintains (images cfg) (ParkedAs w₀ p) (parkOnReorgHalt height unread : Decoder cfg Unit)
      (fun _ => ParkedAs w₀ true) := by
  refine maintains_modify ?_
  rintro w hI ⟨h, -⟩
  unfold World.park
  by_cases hparked : w.mem.reorgHaltParked = true
  · rw [if_pos hparked]
    exact ⟨hI, h, hparked⟩
  · rw [if_neg hparked]
    exact ⟨hI.congr rfl (.inl rfl), ⟨h.db, h.txn, h.cursor, h.batch, h.deletes⟩, rfl⟩

theorem maintains_updateMem_parkedAs {p p' : Bool} {f : Memory → Memory}
    (h : ∀ mem, mem.reorgHaltParked = p → (f mem).reorgHaltParked = p') :
    Maintains (images cfg) (ParkedAs w₀ p) (updateMem f : Decoder cfg Unit)
      (fun _ => ParkedAs w₀ p') :=
  maintains_modify (fun w hI hw => ⟨hI.congr rfl (.inl rfl),
    ⟨hw.1.db, hw.1.txn, hw.1.cursor, hw.1.batch, hw.1.deletes⟩, h w.mem hw.2⟩)

/-- The boot park check parks, or leaves the park as it is. -/
theorem maintains_parkOnRolledBackHalt (p : Bool) :
    Maintains (images cfg) (ParkedAs w₀ p) (parkOnRolledBackHalt : Decoder cfg Bool)
      (fun b => ParkedAs w₀ (if b = true then true else p)) := by
  have hfalse : Maintains (images cfg) (ParkedAs w₀ p) (pure false : Decoder cfg Bool)
      (fun b => ParkedAs w₀ (if b = true then true else p)) := maintains_pure (fun _ h => h)
  have hparks : ∀ (height : Int) (unread : Bool), Maintains (images cfg) (ParkedAs w₀ p)
      (do parkOnReorgHalt height unread; return true : Decoder cfg Bool)
      (fun b => ParkedAs w₀ (if b = true then true else p)) := fun height unread =>
    maintains_bind (maintains_parkOnReorgHalt height unread) (fun _ => maintains_pure (fun _ h => h))
  refine maintains_get_bind (fun w _ _ => ?_)
  refine Maintains.weaken (P := ParkedAs w₀ p) ?_ (fun _ _ h => h.1) (fun _ _ h => h)
  refine maintains_ite (fun _ => hfalse) (fun _ => ?_)
  refine maintains_ite (fun _ => hparks _ _) (fun _ => maintains_ite (fun _ => hfalse) (fun _ => ?_))
  refine maintains_bind onlyLooks_watchPark.parkedAs (fun _ => ?_)
  refine maintains_bind onlyLooks_readRolledBackAboveTip.parkedAs (fun rolledBack => ?_)
  refine maintains_ite (fun _ => ?_) (fun _ => maintains_get_bind (fun w _ _ => ?_))
  · refine maintains_bind (OnlyLooks.parkedAs (onlyLooks_modify ?_)) (fun _ => hfalse)
    exact fun _ => ⟨rfl, rfl, rfl, rfl, rfl, rfl⟩
  · exact (hparks _ _).weaken (fun _ _ h => h.1) (fun _ _ h => h)

/-- A loop that may not resume is parked. -/
theorem maintains_resumeFromReorgHaltPark :
    Maintains (images cfg) (ParkedAs w₀ true) (resumeFromReorgHaltPark : Decoder cfg Bool)
      (fun b w => Parking w₀ w ∧ (b = false → w.mem.reorgHaltParked = true)) := by
  have hgoes : true = false → ∀ w : World cfg.weight, w.mem.reorgHaltParked = true :=
    fun hno => absurd hno (by decide)
  have hfalse : Maintains (images cfg) (ParkedAs w₀ true) (pure false : Decoder cfg Bool)
      (fun b w => Parking w₀ w ∧ (b = false → w.mem.reorgHaltParked = true)) :=
    maintains_pure (fun _ h => ⟨h.1, fun _ => h.2⟩)
  refine maintains_get_bind (fun w _ _ => ?_)
  refine Maintains.weaken (P := ParkedAs w₀ true) ?_ (fun _ _ h => h.1) (fun _ _ h => h)
  refine maintains_ite (fun _ => maintains_pure (fun _ h => ⟨h.1, fun hno => hgoes hno _⟩)) (fun _ => ?_)
  refine maintains_ite (fun _ => ?_) (fun _ => maintains_ite (fun _ => hfalse) (fun _ => ?_))
  · -- a park entered without a readable marker
    refine maintains_bind onlyLooks_dateNow.parkedAs (fun now => maintains_get_bind (fun w _ _ => ?_))
    refine Maintains.weaken (P := ParkedAs w₀ true) ?_ (fun _ _ h => h.1) (fun _ _ h => h)
    refine maintains_ite (fun _ => hfalse) (fun _ => ?_)
    refine maintains_bind (onlyLooks_updateMem (by intro _; rfl)).parkedAs (fun _ => ?_)
    refine maintains_bind (onlyLooks_checkReorgHalt true).parkedAs (fun _ => ?_)
    refine maintains_get_bind (fun w _ _ => ?_)
    refine Maintains.weaken (P := ParkedAs w₀ true) ?_ (fun _ _ h => h.1) (fun _ _ h => h)
    refine maintains_ite (fun _ => hfalse) (fun _ => ?_)
    refine maintains_bind (R := fun _ => ParkedAs w₀ false)
      (maintains_updateMem_parkedAs (by intro _ _; rfl)) (fun _ => ?_)
    refine maintains_ite (fun _ => ?_) (fun _ => maintains_pure (fun _ h => ⟨h.1, fun hno => hgoes hno _⟩))
    refine maintains_bind (maintains_parkOnRolledBackHalt false) (fun parked => maintains_pure ?_)
    intro w' h
    refine ⟨h.1, fun hstays => ?_⟩
    have hparks : parked = true := by simpa using hstays
    have hparked := h.2
    rw [if_pos hparks] at hparked
    exact hparked
  -- the marker was readable: once it is cleared the park ends
  · refine maintains_bind (onlyLooks_checkReorgHalt false).parkedAs (fun _ => ?_)
    refine maintains_get_bind (fun w _ _ => ?_)
    refine Maintains.weaken (P := ParkedAs w₀ true) ?_ (fun _ _ h => h.1) (fun _ _ h => h)
    refine maintains_ite (fun _ => hfalse) (fun _ => ?_)
    refine maintains_bind (R := fun _ => ParkedAs w₀ false)
      (maintains_updateMem_parkedAs (by intro _ _; rfl)) (fun _ => maintains_pure ?_)
    exact fun _ h => ⟨h.1, fun hno => hgoes hno _⟩

/-- What a turn leaves that a park has held. -/
structure Held (w₀ : World cfg.weight) (turn : Turn) (w : World cfg.weight) : Prop where
  low     : CursorLow cfg w
  held    : turn = .held → w.mem.reorgHaltParked = true ∧ (Idle w₀ → Idle w)
  resumed : turn ≠ .held → turn = .resumed ∧ (Idle w₀ → Aligned w)

theorem maintains_leaveReorgHaltPark (hlow : CursorLow cfg w₀) :
    Maintains (images cfg) (ParkedAs w₀ true) (leaveReorgHaltPark : Decoder cfg Turn)
      (Held w₀) := by
  refine maintains_bind maintains_resumeFromReorgHaltPark (fun resumes => ?_)
  refine maintains_ite (fun hresumes => ?_) (fun hstays => ?_)
  · refine maintains_bind (maintains_rederive.weaken (fun _ _ h => h.1) (fun _ _ h => h)) (fun _ => ?_)
    refine maintains_bind maintains_resetBatch (fun _ => ?_)
    refine maintains_bind ((onlyLooks_updateLoop (by intro _; rfl) (by intro _; rfl)).maintains
      Still.realigned) (fun _ => maintains_pure ?_)
    rintro w ⟨hlow', w₁, hparking, haligned⟩
    exact ⟨hlow', nofun, fun _ => ⟨rfl, fun hidle => haligned (hparking.txn.trans hidle)⟩⟩
  · have hfalse : resumes = false := by simpa using hstays
    refine maintains_bind (R := fun _ => ParkedAs w₀ true) ?_ (fun _ => maintains_pure ?_)
    · exact onlyLooks_sleep.parkedAs.weaken (fun _ _ h => ⟨h.1, h.2 hfalse⟩) (fun _ _ h => h)
    · rintro w ⟨h, hparked⟩
      refine ⟨?_, fun _ => ⟨hparked, fun hidle => h.txn.trans hidle⟩, fun hne => absurd rfl hne⟩
      unfold CursorLow
      rw [h.cursor]
      exact hlow

/-- What a turn leaves, by whether the loop was parked in it. -/
structure Turned (w₀ : World cfg.weight) (turn : Turn) (w : World cfg.weight) : Prop where
  low     : CursorLow cfg w
  held    : turn = .held → w.mem.reorgHaltParked = true ∧ (Idle w₀ → Idle w)
  resumed : turn = .resumed → Idle w₀ → Aligned w
  parsed  : turn ≠ .held → turn ≠ .resumed → w₀.mem.reorgHaltParked = false ∧ Ended w₀ turn w

theorem Held.turned {turn : Turn} {w : World cfg.weight} (h : Held w₀ turn w) : Turned w₀ turn w where
  low     := h.low
  held    := h.held
  resumed := by
    rintro rfl
    exact (h.resumed nofun).2
  parsed  := fun hheld hresumed => absurd (h.resumed hheld).1 hresumed

theorem Ended.turned {turn : Turn} {w : World cfg.weight} (h : Ended w₀ turn w)
    (hparked : w₀.mem.reorgHaltParked = false) : Turned w₀ turn w where
  low     := h.low
  held    := fun ht => absurd ht h.parses.1
  resumed := fun ht => absurd ht h.parses.2
  parsed  := fun _ _ => ⟨hparked, h⟩

/-- **Main theorem.** One turn of the loop keeps every image a stored chain, and
    leaves the cursor as its ending says. -/
theorem maintains_iterate_turn (hlow : CursorLow cfg w₀) (rounds : Nat) :
    Maintains (images cfg) (Still w₀) (iterate rules rounds : Decoder cfg Turn) (Turned w₀) := by
  have hstart : ∀ w, Still w₀ w → ParkedAs w₀ w₀.mem.reorgHaltParked w := fun w h =>
    ⟨⟨h.db, h.txn, h.cursor, h.batch, h.deletes⟩, h.parked⟩
  refine maintains_bind (R := fun r w => match r with
    | some turn => Turned w₀ turn w
    | none      => w₀.mem.reorgHaltParked = false ∧ Still w₀ w) ?_ (fun r => ?_)
  · -- the park check that is due, and the park
    refine maintains_get_bind (fun w _ _ => ?_)
    refine Maintains.weaken (P := ParkedAs w₀ w₀.mem.reorgHaltParked) ?_
      (fun _ _ h => hstart _ h.1) (fun _ _ h => h)
    refine maintains_bind (R := fun _ w => ∃ p, ParkedAs w₀ p w ∧
      (p = false → w₀.mem.reorgHaltParked = false)) ?_ (fun _ => ?_)
    · refine maintains_ite (fun _ => ?_) (fun _ => maintains_pure (fun _ h => ⟨_, h, fun hp => hp⟩))
      refine maintains_bind (onlyLooks_updateMem (by intro _; rfl)).parkedAs (fun _ => ?_)
      refine maintains_bind (maintains_parkOnRolledBackHalt _) (fun parks => maintains_pure ?_)
      intro w' h
      refine ⟨_, h, fun hp => ?_⟩
      cases parks with
      | true  => cases hp
      | false => exact hp
    refine maintains_get_bind (fun w _ hw => ?_)
    obtain ⟨p, hw, hp⟩ := hw
    refine maintains_ite (fun hparked => ?_) (fun hfree => maintains_pure ?_)
    -- parked: the turn is spent on leaving the park
    · have htrue : p = true := by
        rw [← hw.2]
        exact hparked
      refine maintains_bind ((maintains_leaveReorgHaltPark hlow).weaken ?_ (fun _ _ h => h)) ?_
      · rintro w' - ⟨⟨p', hw', -⟩, rfl⟩
        exact ⟨hw'.1, hparked⟩
      · exact fun turn => maintains_pure (fun _ h => h.turned)
    -- not parked, and then neither at the start of the turn
    · have hfalse : p = false := by
        rw [← hw.2]
        simpa using hfree
      rintro w' ⟨-, rfl⟩
      refine ⟨hp hfalse, hw.1.toStill ?_⟩
      rw [hw.2, hfalse, hp hfalse]
  cases r with
  | some turn => exact maintains_pure (fun _ h => h)
  | none =>
    intro env w hI h
    -- no park took the turn: it goes to the blocks
    obtain ⟨hparked, hs⟩ := h
    refine wp_mono (maintains_parseTurn hlow rounds env w hI hs) ?_
    rintro r w' ⟨hends, hended⟩
    exact ⟨hends, fun turn ht => (hended turn ht).turned hparked⟩

end XChainDecoder
