import XChainDecoder.Db.Chain
import XChainDecoder.Reorg.Steady

/-! # What the steps of a rollback come to

    One specification for each call of `verifyReorg` whose answer or effect
    matters later: the reads of the stored chain, the proof a delete rests on,
    the depth check, the delete itself, and the reading of the halted walk. -/

namespace XChainDecoder

variable {weight : String → String} {cfg : Config} {α : Type} {env : Env}
  {w w' : World cfg.weight}

/-! ## Section 1: Reads -/

/-- A call that changes no table and answers only values with `v`. -/
def Reads (w : World weight) (v : α → Prop) (r : Except (Stop Failure) α) (w' : World weight) :
    Prop :=
  Steady w w' ∧ w'.db = w.db ∧ (r ≠ .error .crashed → Idle w') ∧ ∀ a, r = .ok a → v a

theorem Reads.trans {β : Type} {w w' w'' : World weight} {v : α → Prop}
    {r : Except (Stop Failure) α} {v' : β → Prop} {r' : Except (Stop Failure) β}
    (h : Reads w v r w') (h' : Reads w' v' r' w'') : Reads w v' r' w'' :=
  ⟨h.1.trans h'.1, h'.2.1.trans h.2.1, h'.2.2⟩

/-- A read that throws is a read of anything. -/
theorem Reads.error {β : Type} {w w' : World weight} {v : α → Prop} {v' : β → Prop}
    {e : Stop Failure} (h : Reads w v (.error e) w') : Reads w v' (.error e) w' :=
  ⟨h.1, h.2.1, fun he => h.2.2.1 (by simpa using he), fun _ ha => by cases ha⟩

theorem Reads.pure {w w' : World weight} {v : α → Prop} {v' : α → Prop} {r : Except (Stop Failure) α}
    (h : Reads w v r w') (hne : r ≠ .error .crashed) {a : α} (ha : v' a) :
    Reads w v' (.ok a) w' :=
  ⟨h.1, h.2.1, fun _ => h.2.2.1 hne, fun b hb => by cases hb; exact ha⟩

theorem Reads.weaken {w w' : World weight} {v v' : α → Prop} {r : Except (Stop Failure) α}
    (h : Reads w v r w') (hv : ∀ a, v a → v' a) : Reads w v' r w' :=
  ⟨h.1, h.2.1, h.2.2.1, fun a ha => hv a (h.2.2.2 a ha)⟩

theorem Reads.idle {w w' : World weight} {v : α → Prop} {r : Except (Stop Failure) α}
    (h : Reads w v r w') (hne : r ≠ .error .crashed) : Idle w' := h.2.2.1 hne

/-- Two reads of an unchanged database, one after the other. -/
theorem wp_reads_bind {β : Type} {m : Decoder cfg α} {f : α → Decoder cfg β} {v : α → Prop}
    {v' : β → Prop} (hm : m.wp env w (Reads w v))
    (hf : ∀ a w', v a → Idle w' → w'.db = w.db → (f a).wp env w' (Reads w' v')) :
    (m >>= f).wp env w (Reads w v') := by
  refine Proc.wp_seq hm ?_ (fun e w' h => h.error)
  intro a w' h
  refine Proc.wp_mono (hf a w' (h.2.2.2 a rfl) (h.idle (by simp)) h.2.1) ?_
  intro r w'' h'
  exact h.trans h'

/-- A read that is tried, with another in its place where it throws. -/
theorem wp_reads_tryCatch {m : Decoder cfg α} {f : Failure → Decoder cfg α} {v v' : α → Prop}
    (hm : m.wp env w (Reads w v)) (hv : ∀ a, v a → v' a)
    (hf : ∀ e w', Idle w' → w'.db = w.db → (f e).wp env w' (Reads w' v')) :
    (tryCatch m f).wp env w (Reads w v') := by
  refine Proc.wp_guard hm (fun a w' h => h.weaken hv) ?_ (fun w' h => h.error)
    (fun w' h => h.error)
  intro e w' h
  refine Proc.wp_mono (hf e w' (h.idle (by simp)) h.2.1) ?_
  intro r w'' h'
  exact h.trans h'

theorem wp_pure_reads (hw : Idle w) {v : α → Prop} {a : α} (ha : v a) :
    (pure a : Decoder cfg α).wp env w (Reads w v) :=
  ⟨Steady.refl w, rfl, fun _ => hw, fun b hb => by cases hb; exact ha⟩

theorem wp_throw_reads (hw : Idle w) {v : α → Prop} (e : Failure) :
    (throw e : Decoder cfg α).wp env w (Reads w v) :=
  ⟨Steady.refl w, rfl, fun _ => hw, fun b hb => by cases hb⟩

theorem wp_query_reads {t : Tables cfg.weight} (hw : Idle w) (hdb : w.db = t)
    (f : Tables cfg.weight → α) :
    (query f : Decoder cfg α).wp env w (Reads w (fun a => a = f t)) := by
  have hs := steady_tock env w
  have hidle : Idle (w.tock env) := idle_tock hw
  refine wp_query ?_ ?_ ?_
  · exact ⟨Steady.refl w, rfl, fun h => absurd rfl h, fun a ha => by cases ha⟩
  · exact ⟨hs, tock_db env w, fun _ => hidle, fun a ha => by cases ha⟩
  · refine ⟨hs, tock_db env w, fun _ => hidle, fun a ha => ?_⟩
    rw [hw.view, hdb] at ha
    injection ha with ha
    exact ha.symm

theorem wp_sleep_reads (hw : Idle w) :
    (sleep : Decoder cfg Unit).wp env w (Reads w (fun _ => True)) :=
  wp_sleep ⟨Steady.refl w, rfl, fun h => absurd rfl h, fun _ _ => trivial⟩
    ⟨steady_tock env w, tock_db env w, fun _ => idle_tock hw, fun _ _ => trivial⟩

theorem wp_pauseBefore_reads (n : Nat) (hw : Idle w) :
    (pauseBefore n : Decoder cfg Unit).wp env w (Reads w (fun _ => True)) :=
  wp_pauseBefore ⟨Steady.refl w, rfl, fun h => absurd rfl h, fun _ _ => trivial⟩
    ⟨Steady.refl w, rfl, fun _ => hw, fun _ _ => trivial⟩
    ⟨steady_tock env w, tock_db env w, fun _ => idle_tock hw, fun _ _ => trivial⟩

/-- The depth already rolled back above the tip. -/
def Tables.rolledBackDepth (t : Tables weight) : Nat :=
  t.countReorgDeletesAbove t.getLastBlockIndex REORG_SCAN_LIMIT

theorem wp_countReorgDeletesAboveTip {t : Tables cfg.weight} (hw : Idle w) (hdb : w.db = t) :
    (countReorgDeletesAboveTip : Decoder cfg Nat).wp env w
      (Reads w (fun n => n = t.rolledBackDepth)) := by
  refine wp_reads_bind (wp_query_reads hw hdb Tables.getLastBlockIndex) ?_
  rintro tip w' rfl hidle hdb'
  exact wp_query_reads hidle (hdb'.trans hdb) _

theorem wp_attemptPriorDepth (n : Nat) {t : Tables cfg.weight} (hw : Idle w) (hdb : w.db = t) :
    (attemptPriorDepth n : Decoder cfg Nat).wp env w
      (Reads w (fun n => n = t.rolledBackDepth)) := by
  induction n generalizing w with
  | zero => exact wp_throw_reads hw _
  | succ n ih =>
    refine wp_reads_tryCatch (wp_countReorgDeletesAboveTip hw hdb) (fun _ h => h) ?_
    intro e w₁ hidle₁ hdb₁
    refine wp_reads_bind (wp_pauseBefore_reads n hidle₁) ?_
    intro _ w₂ _ hidle₂ hdb₂
    exact ih hidle₂ (hdb₂.trans (hdb₁.trans hdb))

theorem wp_readPriorRollbackDepth (hw : Idle w) :
    (readPriorRollbackDepth : Decoder cfg Nat).wp env w
      (Reads w (fun n => n = w.db.rolledBackDepth)) :=
  wp_attemptPriorDepth 3 hw rfl

/-- The stored tip block, where both reads came through. -/
theorem wp_readLastStoredBlock (hw : Idle w) :
    (readLastStoredBlock : Decoder cfg (Option (Int × Option Block))).wp env w
      (Reads w (fun last => ∀ lastBlockIndex lastBlock, last = some (lastBlockIndex, lastBlock) →
        lastBlockIndex = w.db.getLastBlockIndex ∧
          lastBlock = w.db.getBlockByIndex w.db.getLastBlockIndex)) := by
  refine wp_reads_tryCatch
    (v := fun last => last = some (w.db.getLastBlockIndex,
      w.db.getBlockByIndex w.db.getLastBlockIndex)) ?_ ?_ ?_
  · refine wp_reads_bind (wp_query_reads hw rfl Tables.getLastBlockIndex) ?_
    rintro tip w₁ rfl hidle₁ hdb₁
    refine wp_reads_bind (wp_query_reads hidle₁ hdb₁ _) ?_
    rintro block w₂ rfl hidle₂ hdb₂
    exact wp_pure_reads hidle₂ rfl
  · rintro last rfl lastBlockIndex lastBlock heq
    cases heq
    exact ⟨rfl, rfl⟩
  · intro e w₁ hidle₁ hdb₁
    refine wp_reads_bind (wp_sleep_reads hidle₁) ?_
    intro _ w₂ _ hidle₂ _
    exact wp_pure_reads hidle₂ (fun _ _ h => by cases h)

/-! ## Section 2: The node's proof -/

/-- The last answer in the log is the header of `hash` with confirmations -1;
    failed attempts at a delete may stand above it. -/
def ProofFor (hash : Option Hash) : List (Observed weight) → Prop
  | .deleteFailed .. :: log           => ProofFor hash log
  | .headerAnswer asked answer :: _   => asked = hash ∧ answer = .header (some (-1))
  | _                                 => False

theorem ForkProof.proven_iff {answer : HeaderAnswer} :
    (ForkProof.ofAnswer answer).proven = true ↔ answer = .header (some (-1)) := by
  cases answer with
  | notFound => simp [ForkProof.ofAnswer, unproven]
  | failed   => simp [ForkProof.ofAnswer, unproven]
  | unusable => simp [ForkProof.ofAnswer, unproven]
  | header confirmations =>
    by_cases h : confirmations = some (-1)
    · simp [ForkProof.ofAnswer, h]
    · cases confirmations with
      | none   => simp [ForkProof.ofAnswer, unproven]
      | some n =>
        have hn : n ≠ -1 := fun hn => h (by rw [hn])
        by_cases hn' : 0 ≤ n <;> simp [ForkProof.ofAnswer, unproven, hn, hn']

/-- A proof rests on the answer that was just logged. -/
theorem wp_proveReorgedAway (hash : Option Hash) (hw : Idle w) :
    (proveReorgedAway hash : Decoder cfg ForkProof).wp env w (fun r w' =>
      Steady w w' ∧ w'.db = w.db ∧ (r ≠ .error .crashed → Idle w') ∧
        ∀ proof, r = .ok proof → proof.proven = true → ProofFor hash w'.log) := by
  refine Proc.wp_bind.mpr (wp_getBlockHeader ?_ ?_)
  · exact ⟨Steady.refl w, rfl, fun h => absurd rfl h, fun _ h => by cases h⟩
  · refine ⟨(steady_tock env w).trans (steady_log _ rfl), tock_db env w, fun _ => idle_tock hw, ?_⟩
    intro proof hproof hproven
    cases hproof
    exact ⟨rfl, ForkProof.proven_iff.mp hproven⟩

/-- `requireReorgProof` comes back only on top of a proof for that very hash. -/
theorem wp_requireReorgProof (blockIndex : Int) (hash : Option Hash) (nodeTip : Option Int)
    (hw : Idle w) (hcache : CacheUnproven w.mem) :
    (requireReorgProof blockIndex hash nodeTip : Decoder cfg Unit).wp env w (fun r w' =>
      Steady w w' ∧ (r ≠ .error .crashed → Idle w') ∧ (r = .ok () → ProofFor hash w'.log)) := by
  refine Proc.wp_seq (P := fun r w' => Steady w w' ∧ (r ≠ .error .crashed → Idle w') ∧
    ∀ proof, r = .ok proof → proof.proven = true → ProofFor hash w'.log) ?_ ?_ ?_
  · unfold proveForkReorgedAway
    rw [Proc.wp_bind, wp_dateNow, Proc.continuesWith_ok, Proc.wp_bind, Proc.wp_get,
      Proc.continuesWith_ok]
    split
    next e he =>
      -- a cached answer is an unproven one
      refine ⟨Steady.refl w, fun _ => hw, fun proof hproof hproven => ?_⟩
      cases hproof
      have hsome : w.mem.forkProofCache = some e := (Option.filter_eq_some_iff.mp he).1
      rw [hcache e hsome] at hproven
      cases hproven
    next he =>
      refine Proc.wp_seq (wp_proveReorgedAway hash hw) ?_ ?_
      · rintro proof w₁ ⟨hs₁, -, hidle₁, hproof₁⟩
        have hkeep : Steady w₁ { w₁ with
            mem := w₁.mem.keepForkProof nodeTip hash (env.now w.tick) proof } :=
          steady_mem w₁ (f := fun mem => mem.keepForkProof nodeTip hash (env.now w.tick) proof)
            rfl (fun _ => cacheUnproven_keepForkProof _ _ _ _ _)
        refine ⟨hs₁.trans hkeep, fun _ => hidle₁ (by simp), ?_⟩
        intro proof' heq hproven
        cases heq
        exact hproof₁ proof rfl hproven
      · rintro e w₁ ⟨hs₁, -, hidle₁, -⟩
        exact ⟨hs₁, fun he => hidle₁ (by simpa using he), fun _ h => by cases h⟩
  · rintro proof w₁ ⟨hs₁, hidle₁, hproof₁⟩
    by_cases hproven : proof.proven = true
    · rw [if_pos hproven]
      exact ⟨hs₁, fun _ => hidle₁ (by simp), fun _ => hproof₁ proof rfl hproven⟩
    · rw [if_neg hproven]
      exact ⟨hs₁, fun _ => hidle₁ (by simp), fun h => by cases h⟩
  · rintro e w₁ ⟨hs₁, hidle₁, -⟩
    exact ⟨hs₁, fun he => hidle₁ (by simpa using he), fun h => by cases h⟩

/-! ## Section 3: The depth check -/

/-- The walk goes on under a recorded halt, whose marker was read back. -/
def Halts (walk walk' : Walk) (w' : World weight) : Prop :=
  walk'.haltError.isSome = true ∧ walk'.blocksDeleted = walk.blocksDeleted ∧
    w'.haltConfirmed = true

theorem wp_raiseSafeDepthHalt (reason : HaltReason) (walk : Walk) (hw : Idle w) :
    (raiseSafeDepthHalt reason walk : Decoder cfg Walk).wp env w (fun r w' =>
      Steady w w' ∧ (r ≠ .error .crashed → Idle w') ∧
        ∀ walk', r = .ok walk' → Halts walk walk' w') := by
  refine Proc.wp_seq (wp_haltReorg hw reason) ?_
    (fun e w' h => ⟨h.1, fun he => h.2.1 (by simpa using he), fun _ h => by cases h⟩)
  rintro _ w₁ ⟨hs₁, hidle₁, hconfirmed₁⟩
  rw [Proc.wp_bind, Proc.wp_get, Proc.continuesWith_ok]
  by_cases hp : w₁.mem.reorgHaltMarkerPersisted = some true
  · rw [if_pos hp]
    refine ⟨hs₁, fun _ => hidle₁ (by simp), fun walk' hwalk => ?_⟩
    cases hwalk
    exact ⟨rfl, rfl, hconfirmed₁ rfl hp⟩
  · rw [if_neg hp]
    exact ⟨hs₁, fun _ => hidle₁ (by simp), fun _ h => by cases h⟩

/-- Past the depth check a walk is unchanged and has room for one more block,
    or it is halted. -/
theorem wp_assertWithinSafeDepth (lastBlockIndex : Int) (priorDepth : Nat) {walk : Walk}
    (hw : Idle w) (hnone : walk.haltError = none) :
    (assertWithinSafeDepth lastBlockIndex priorDepth walk : Decoder cfg Walk).wp env w
      (fun r w' => Steady w w' ∧ (r ≠ .error .crashed → Idle w') ∧ ∀ walk', r = .ok walk' →
        (w' = w ∧ walk' = walk ∧ priorDepth + walk.blocksDeleted.length < cfg.safeDepth) ∨
          Halts walk walk' w') := by
  unfold assertWithinSafeDepth
  rw [hnone, if_neg (by simp)]
  by_cases hdeep : cfg.safeDepth ≤ priorDepth + walk.blocksDeleted.length
  · rw [if_pos hdeep]
    refine Proc.wp_mono (wp_raiseSafeDepthHalt _ walk hw) ?_
    rintro r w' ⟨hs, hidle, hhalts⟩
    exact ⟨hs, hidle, fun walk' hwalk => .inr (hhalts walk' hwalk)⟩
  · rw [if_neg hdeep]
    refine ⟨Steady.refl w, fun _ => hw, fun walk' hwalk => .inl ?_⟩
    cases hwalk
    exact ⟨rfl, rfl, by omega⟩

theorem wp_refuseOrHaltDeepGap (blockIndex : Int) (hash : Option Hash) (nodeTip : Int)
    (priorDepth : Nat) (walk : Walk) (hw : Idle w) :
    (refuseOrHaltDeepGap blockIndex hash nodeTip priorDepth walk : Decoder cfg Walk).wp env w
      (fun r w' => Steady w w' ∧ (r ≠ .error .crashed → Idle w') ∧
        ∀ walk', r = .ok walk' → walk' = walk ∨ Halts walk walk' w') := by
  refine Proc.wp_seq (steadily_requireAboveTipForkProof blockIndex hash nodeTip env w hw) ?_
    (fun e w' h => ⟨h.1, fun he => h.2 (by simpa using he), fun _ h => by cases h⟩)
  rintro boundaryHash w₁ ⟨hs₁, hidle₁⟩
  dsimp only
  by_cases hfits : ((priorDepth + walk.blocksDeleted.length : Nat) : Int) +
      (blockIndex - nodeTip) + 1 ≤ cfg.safeDepth
  · rw [if_pos hfits]
    exact ⟨hs₁, fun _ => hidle₁ (by simp), fun walk' h => by cases h; exact .inl rfl⟩
  · rw [if_neg hfits]
    refine Proc.wp_mono (wp_raiseSafeDepthHalt _ walk (hidle₁ (by simp))) ?_
    rintro r w' ⟨hs, hidle, hhalts⟩
    exact ⟨hs₁.trans hs, hidle, fun walk' hwalk => .inr (hhalts walk' hwalk)⟩

/-! ## Section 4: The delete -/

/-- A block was deleted, and nothing else changed but what an await may change. -/
structure Deleted (blockIndex : Int) (hash : Option Hash) (w w' : World weight) : Prop where
  db        : w'.db = w.db.deleteBlockByIndex blockIndex hash
  idle      : Idle w'
  log       : w'.log = .deleted blockIndex hash w.db :: w.log
  loop      : w'.loop = w.loop
  sound     : HaltSound w → HaltSound w'
  confirmed : w.haltConfirmed = true → w'.haltConfirmed = true
  cache     : CacheUnproven w.mem → CacheUnproven w'.mem

theorem Steady.deleted {blockIndex : Int} {hash : Option Hash} {w w' w'' : World weight}
    (hs : Steady w w') (hdb : w'.db = w.db) (hlog : w'.log = w.log)
    (h : Deleted blockIndex hash w' w'') : Deleted blockIndex hash w w'' where
  db        := by rw [h.db, hdb]
  idle      := h.idle
  log       := by rw [h.log, hdb, hlog]
  loop      := h.loop.trans hs.loop
  sound     := h.sound ∘ hs.sound
  confirmed := h.confirmed ∘ hs.confirmed
  cache     := h.cache ∘ hs.cache

/-- A delete adds no halt row and no clear row. -/
theorem Tables.mem_events_deleteBlockByIndex {t : Tables weight} {i : Int} {h : Option Hash}
    {e : Event} (he : e.isHalt = true) :
    e ∈ (t.deleteBlockByIndex i h).events ↔ e ∈ t.events := by
  cases h with
  | none      => exact Iff.rfl
  | some hash =>
    rw [Tables.deleteBlockByIndex_events, List.mem_cons]
    refine or_iff_right (fun heq => ?_)
    rw [heq] at he
    cases he

theorem HaltSound.openTxn {w : World weight} (h : HaltSound w) {t : Tables weight}
    (hmem : ∀ e, Event.isHalt e = true → e ∈ t.events → e ∈ w.db.events) :
    HaltSound { w with txn := some t } where
  persisted := h.persisted
  confirmed := h.confirmed
  view      := fun _ hr => hmem _ rfl hr
  reading   := h.reading
  audited   := ⟨fun hr => h.audited.2 (hmem _ rfl hr), h.audited.2⟩

theorem HaltSound.closeTxn {w : World weight} (h : HaltSound w) :
    HaltSound { w with txn := none } where
  persisted := h.persisted
  confirmed := h.confirmed
  view      := fun _ hr => hr
  reading   := h.reading
  audited   := ⟨h.audited.2, h.audited.2⟩

theorem HaltSound.commitTxn {w : World weight} (h : HaltSound w) {t : Tables weight}
    (hmem : ∀ e, Event.isHalt e = true → (e ∈ t.events ↔ e ∈ w.db.events)) :
    HaltSound { w with db := t, txn := none } where
  persisted := h.persisted
  confirmed := by
    intro hc
    obtain ⟨r, hr⟩ := h.confirmed hc
    exact ⟨r, (hmem _ rfl).mpr hr⟩
  view      := fun _ hr => hr
  reading   := by
    intro r hr hread
    obtain ⟨reason, hrow⟩ := h.reading r hr hread
    exact ⟨reason, (hmem _ rfl).mpr hrow⟩
  audited   := by
    have hnot : Event.reorgHaltCleared none ∉ t.events :=
      fun hr => h.audited.2 ((hmem _ rfl).mp hr)
    exact ⟨hnot, hnot⟩

theorem steady_txn {w : World weight} {txn : Option (Tables weight)}
    (hsound : HaltSound w → HaltSound { w with txn := txn }) : Steady w { w with txn := txn } where
  rows      := rfl
  hashes    := rfl
  events    := ⟨[], rfl, by simp⟩
  log       := ⟨[], rfl, by simp⟩
  loop      := rfl
  sound     := hsound
  confirmed := id
  cache     := id

/-- What `deleteBlockByIndex` comes to. -/
def DeleteAttempted (blockIndex : Int) (hash : Option Hash) (w : World weight)
    (r : Except (Stop Failure) Unit) (w' : World weight) : Prop :=
  (r = .ok () → Deleted blockIndex hash w w') ∧
    ∀ e, r = .error e → Steady w w' ∧ w'.log = w.log ∧ (e ≠ .crashed → Idle w')

theorem DeleteAttempted.error {blockIndex : Int} {hash : Option Hash} {w w' : World weight}
    {e : Stop Failure} (hs : Steady w w') (hlog : w'.log = w.log)
    (hidle : e ≠ .crashed → Idle w') : DeleteAttempted blockIndex hash w (.error e) w' :=
  ⟨(by intro h; cases h), (by intro e' he; cases he; exact ⟨hs, hlog, hidle⟩)⟩

/-- The handler of a failed delete: release the transaction, pass the error on. -/
theorem wp_abandonDelete {blockIndex : Int} {hash : Option Hash} {w w₁ : World cfg.weight}
    (hs : Steady w w₁) (hlog : w₁.log = w.log) (err : Failure) :
    (do endTransaction; throw err : Decoder cfg Unit).wp env w₁
      (DeleteAttempted blockIndex hash w) := by
  have hs₂ : Steady w { w₁.tock env with txn := none } :=
    (hs.trans (steady_tock env w₁)).trans (steady_txn (fun h => h.closeTxn))
  have hlog₂ : (w₁.tock env).log = w.log := (tock_log env w₁).trans hlog
  refine Proc.wp_bind.mpr (wp_endTransaction ?_ ?_ ?_ ?_)
  · exact .error hs hlog (fun h => absurd rfl h)
  · intro hnone
    exact .error hs hlog (fun _ => hnone)
  · exact .error hs₂ hlog₂ (fun _ => rfl)
  · exact .error hs₂ hlog₂ (fun _ => rfl)

/-- The delete either commits as a whole or leaves no trace. -/
theorem wp_deleteBlockByIndex (blockIndex : Int) (hash : Option Hash) (hw : Idle w) :
    (deleteBlockByIndex blockIndex hash : Decoder cfg Unit).wp env w
      (DeleteAttempted blockIndex hash w) := by
  have hs₁ := steady_tock env w
  refine Proc.wp_bind.mpr (wp_beginTransaction hw ?_ ?_ ?_)
  · exact .error (Steady.refl w) rfl (fun h => absurd rfl h)
  · exact .error hs₁ (tock_log env w) (fun _ => idle_tock hw)
  rw [Proc.continuesWith_ok, Proc.wp_bind, Proc.wp_get, Proc.continuesWith_ok]
  -- the transaction is open: its image is the database itself
  have hsw₁ : Steady w { w.tock env with txn := some (w.tock env).db } :=
    hs₁.trans (steady_txn (fun h => h.openTxn (fun e _ he => he)))
  refine Proc.wp_tryCatch.mpr (Proc.wp_bind.mpr (wp_answered ?_ ?_))
  · exact .error hsw₁ (tock_log env w) (fun h => absurd rfl h)
  have hsw₂ := hsw₁.trans (steady_tock env _)
  generalize hw₂ : ({ w.tock env with txn := some (w.tock env).db }.tock env) = w₂ at hsw₂ ⊢
  have htxn₂ : w₂.txn = some w.db := by rw [← hw₂, tock_txn, tock_db]
  have hdb₂ : w₂.db = w.db := by rw [← hw₂, tock_db, tock_db]
  have hlog₂ : w₂.log = w.log := by rw [← hw₂, tock_log, tock_log]
  rw [Proc.continuesWith_ok]
  by_cases hfails : env.dbFails { w.tock env with txn := some (w.tock env).db }.tick = true
  · rw [if_pos hfails, wp_fail, Proc.handledBy_thrown]
    exact wp_abandonDelete hsw₂ hlog₂ _
  rw [if_neg hfails, Proc.wp_bind, Proc.wp_modify, Proc.continuesWith_ok,
    World.write_of_some htxn₂]
  -- the statements have run; the commit decides
  have hmem : ∀ e, Event.isHalt e = true →
      (e ∈ (w.db.deleteBlockByIndex blockIndex hash).events ↔ e ∈ w.db.events) :=
    fun e he => Tables.mem_events_deleteBlockByIndex he
  have hsw₃ : Steady w { w₂ with txn := some (w.db.deleteBlockByIndex blockIndex hash) } := by
    refine hsw₂.trans (steady_txn (fun h => h.openTxn (fun e he hin => ?_)))
    rw [hdb₂]
    exact (hmem e he).mp hin
  have hsw₄ := hsw₃.trans (steady_tock env _)
  refine Proc.wp_bind.mpr (wp_commitTransaction rfl ?_ ?_ ?_)
  · exact .error hsw₃ hlog₂ (fun h => absurd rfl h)
  · rw [Proc.continuesWith_ok, if_neg (by simp), wp_fail, Proc.handledBy_thrown]
    refine wp_abandonDelete (hsw₄.trans (steady_txn (fun h => h.closeTxn))) ?_ _
    exact (tock_log env _).trans hlog₂
  rw [Proc.continuesWith_ok, if_pos rfl, wp_observe, Proc.handledBy_ok]
  refine ⟨fun _ => ⟨rfl, rfl, ?_, ?_, ?_, ?_, ?_⟩, fun e he => by cases he⟩
  · simp only [tock_log, tock_db, hlog₂]
  · exact hsw₄.loop
  · intro hsound
    have hcommit : HaltSound _ := (hsw₄.sound hsound).commitTxn (t := w.db.deleteBlockByIndex
      blockIndex hash) (fun e he => by rw [tock_db, hdb₂]; exact hmem e he)
    exact ⟨hcommit.persisted, hcommit.confirmed, hcommit.view, hcommit.reading, hcommit.audited⟩
  · exact hsw₄.confirmed
  · exact hsw₄.cache

/-- What one try at a delete does to the walk: the block is gone and counted, or
    nothing has changed. -/
def DeleteTried (blockIndex : Int) (hash : Option Hash) (walk : Walk) (w : World weight)
    (r : Except (Stop Failure) Walk) (w' : World weight) : Prop :=
  (Deleted blockIndex hash w w' ∧ ∃ walk', r = .ok walk' ∧ walk'.haltError = walk.haltError ∧
    walk'.blocksDeleted = walk.blocksDeleted ++ [(blockIndex, hash)]) ∨
  (Steady w w' ∧ (r ≠ .error .crashed → Idle w') ∧ ∀ walk', r = .ok walk' →
    walk'.haltError = walk.haltError ∧ walk'.blocksDeleted = walk.blocksDeleted)

theorem wp_deleteWithRetry (aboveTip : Bool) (blockIndex : Int) (hash : Option Hash) (walk : Walk)
    (hw : Idle w) :
    (deleteWithRetry aboveTip blockIndex hash walk : Decoder cfg Walk).wp env w
      (DeleteTried blockIndex hash walk w) := by
  refine Proc.wp_tryCatch.mpr (Proc.wp_seq (wp_deleteBlockByIndex blockIndex hash hw) ?_ ?_)
  · intro _ w₁ h₁
    exact .inl ⟨h₁.1 rfl, _, rfl, rfl, rfl⟩
  · intro e w₁ h₁
    obtain ⟨hs₁, -, hidle₁⟩ := h₁.2 e rfl
    cases e with
    | crashed => exact .inr ⟨hs₁, fun h => absurd rfl h, fun _ h => by cases h⟩
    | unfinished => exact .inr ⟨hs₁, fun _ => hidle₁ (by simp), fun _ h => by cases h⟩
    | thrown err =>
      have hidle₁ : Idle w₁ := hidle₁ (by simp)
      rw [Proc.handledBy_thrown, Proc.wp_bind, wp_observe, Proc.continuesWith_ok]
      have hs₂ := hs₁.trans (steady_log w₁ (o := .deleteFailed blockIndex hash) rfl)
      have hidle₂ : Idle { w₁ with log := .deleteFailed blockIndex hash :: w₁.log } := hidle₁
      by_cases hten : 10 ≤ walk.retryCount + 1
      · rw [if_pos hten]
        refine Proc.wp_seq (steadily_haltReorg _ env _ hidle₂) ?_ ?_
        · rintro _ w₃ ⟨hs₃, hidle₃⟩
          exact .inr ⟨hs₂.trans hs₃, fun _ => hidle₃ (by simp), fun _ h => by cases h⟩
        · rintro e w₃ ⟨hs₃, hidle₃⟩
          exact .inr ⟨hs₂.trans hs₃, fun he => hidle₃ (by simpa using he), fun _ h => by cases h⟩
      · rw [if_neg hten]
        refine Proc.wp_seq (steadily_sleep env _ hidle₂) ?_ ?_
        · rintro _ w₃ ⟨hs₃, hidle₃⟩
          refine .inr ⟨hs₂.trans hs₃, fun _ => hidle₃ (by simp), fun walk' h => ?_⟩
          cases h
          exact ⟨rfl, rfl⟩
        · rintro e w₃ ⟨hs₃, hidle₃⟩
          exact .inr ⟨hs₂.trans hs₃, fun he => hidle₃ (by simpa using he), fun _ h => by cases h⟩

/-- What the retried delete of the halted walk comes to: the block is gone, on
    the proof every attempt stood on, or nothing has changed. -/
def HaltedDeleteTried (block : Int × Option Hash) (w : World weight)
    (r : Except (Stop Failure) Bool) (w' : World weight) : Prop :=
  (∃ w₁, Steady w w₁ ∧ ProofFor block.2 w₁.log ∧ Deleted block.1 block.2 w₁ w' ∧ r = .ok true) ∨
  (Steady w w' ∧ (r ≠ .error .crashed → Idle w') ∧ r ≠ .ok true)

theorem wp_deleteHaltedBlock (block : Int × Option Hash) (n : Nat) (hw : Idle w)
    (hproof : ProofFor block.2 w.log) :
    (deleteHaltedBlock block n : Decoder cfg Bool).wp env w (HaltedDeleteTried block w) := by
  induction n generalizing w with
  | zero =>
    refine .inr ⟨Steady.refl w, fun _ => hw, fun h => ?_⟩
    injection h with h
    cases h
  | succ n ih =>
    refine Proc.wp_tryCatch.mpr (Proc.wp_seq (wp_deleteBlockByIndex block.1 block.2 hw) ?_ ?_)
    · intro _ w₁ h₁
      exact .inl ⟨w, Steady.refl w, hproof, h₁.1 rfl, rfl⟩
    · intro e w₁ h₁
      obtain ⟨hs₁, hlog₁, hidle₁⟩ := h₁.2 e rfl
      -- what comes of a later attempt came of this call
      have hafter : ∀ {w₂ w' : World cfg.weight} {r : Except (Stop Failure) Bool}, Steady w w₂ →
          HaltedDeleteTried block w₂ r w' → HaltedDeleteTried block w r w' := by
        rintro w₂ w' r hs₂ (⟨w₃, hs₃, h₃⟩ | ⟨hs₃, h₃⟩)
        · exact .inl ⟨w₃, hs₂.trans hs₃, h₃⟩
        · exact .inr ⟨hs₂.trans hs₃, h₃⟩
      cases e with
      | crashed => exact .inr ⟨hs₁, fun h => absurd rfl h, by simp⟩
      | unfinished => exact .inr ⟨hs₁, fun _ => hidle₁ (by simp), by simp⟩
      | thrown err =>
        have hidle₁ : Idle w₁ := hidle₁ (by simp)
        rw [Proc.handledBy_thrown, Proc.wp_bind, wp_observe, Proc.continuesWith_ok]
        have hs₂ := hs₁.trans (steady_log w₁ (o := .deleteFailed block.1 block.2) rfl)
        generalize hw₂ : ({ w₁ with log := .deleteFailed block.1 block.2 :: w₁.log } :
          World cfg.weight) = w₂ at hs₂ ⊢
        have hidle₂ : Idle w₂ := hw₂ ▸ hidle₁
        have hproof₂ : ProofFor block.2 w₂.log := by
          rw [← hw₂]
          show ProofFor block.2 w₁.log
          rw [hlog₁]
          exact hproof
        refine Proc.wp_bind.mpr (wp_pauseBefore ?_ ?_ ?_)
        · exact .inr ⟨hs₂, fun h => absurd rfl h, by simp⟩
        · exact Proc.wp_mono (ih hidle₂ hproof₂) (fun r w' h => hafter hs₂ h)
        · have hproof₃ : ProofFor block.2 (w₂.tock env).log := by
            rw [tock_log]
            exact hproof₂
          exact Proc.wp_mono (ih (idle_tock hidle₂) hproof₃)
            (fun r w' h => hafter (hs₂.trans (steady_tock env w₂)) h)

/-! ## Section 5: The reading of the halted walk -/

/-- The blocks to delete, from `height` down, each with its stored hash. -/
def Doomed (t : Tables weight) : Int → List (Int × Option Hash) → Prop
  | _,      []            => True
  | height, block :: rest => block.1 = height ∧ block.2.isSome = true ∧ t.hashAt height = block.2 ∧
      Doomed t (height - 1) rest

theorem Doomed.append {t : Tables weight} {height next : Int} {doomed : List (Int × Option Hash)}
    {hash : Hash} (h : Doomed t height doomed) (hnext : next = height - doomed.length)
    (hhash : t.hashAt next = some hash) : Doomed t height (doomed ++ [(next, some hash)]) := by
  induction doomed generalizing height with
  | nil =>
    have hnext : next = height := by simpa using hnext
    subst hnext
    exact ⟨rfl, rfl, hhash, trivial⟩
  | cons block rest ih =>
    obtain ⟨hheight, hsome, hstored, hrest⟩ := h
    refine ⟨hheight, hsome, hstored, ih hrest ?_⟩
    rw [hnext, List.length_cons]
    omega

theorem wp_readNodeBlockHash_reads (height : Int) (hw : Idle w) :
    (readNodeBlockHash height : Decoder cfg (Option Hash)).wp env w (Reads w (fun _ => True)) := by
  refine wp_reads_tryCatch (v := fun _ => True) ?_ (fun _ _ => trivial)
    (fun _ w₁ hidle₁ _ => wp_pure_reads hidle₁ trivial)
  refine wp_reads_bind (v := fun _ => True) ?_ (fun _ w₁ _ hidle₁ _ => wp_pure_reads hidle₁ trivial)
  have hs := steady_tock env w
  refine wp_getBlockHash ?_ ?_ ?_
  · exact ⟨Steady.refl w, rfl, fun h => absurd rfl h, fun _ _ => trivial⟩
  · exact ⟨hs.trans (steady_log _ rfl), tock_db env w, fun _ => idle_tock hw, fun _ _ => trivial⟩
  · intro hash _
    exact ⟨hs.trans (steady_log _ rfl), tock_db env w, fun _ => idle_tock hw, fun _ _ => trivial⟩

theorem wp_scanHaltedWalk {t : Tables cfg.weight} (tip : Option Int) (storedTip lowest : Int)
    (n : Nat) (height : Int) (doomed : List (Int × Option Hash)) (hw : Idle w) (hdb : w.db = t)
    (hdoomed : Doomed t storedTip doomed) (hheight : height = storedTip - doomed.length) :
    (scanHaltedWalk tip storedTip lowest n height doomed : Decoder cfg HaltedRead).wp env w
      (Reads w (fun read => ∀ s d f, read = .forkAt s d f →
        s = storedTip ∧ Doomed t storedTip d ∧ d.length < doomed.length + n)) := by
  induction n generalizing height doomed w with
  | zero => exact wp_pure_reads hw (fun _ _ _ h => by cases h)
  | succ n ih =>
    have hstop : ∀ (why : HaltStop) (w₁ : World cfg.weight), Idle w₁ →
        (pure (.stop why) : Decoder cfg HaltedRead).wp env w₁ (Reads w₁ (fun read => ∀ s d f,
          read = .forkAt s d f →
            s = storedTip ∧ Doomed t storedTip d ∧ d.length < doomed.length + (n + 1))) :=
      fun _ _ hidle₁ => wp_pure_reads hidle₁ (fun _ _ _ h => by cases h)
    refine wp_reads_bind (v := fun stored => ∀ block, stored = some block →
        t.getBlockByIndex height = some block) ?_ ?_
    · refine wp_reads_tryCatch (wp_query_reads hw hdb _) ?_ ?_
      · rintro stored rfl block hblock
        exact hblock
      · intro _ w₁ hidle₁ _
        exact wp_pure_reads hidle₁ (fun _ h => by cases h)
    intro stored w₁ hstored hidle₁ hdb₁
    cases hhash : stored.bind Block.blockHash with
    | none => exact hstop _ w₁ hidle₁
    | some storedHash =>
      obtain ⟨block, hblock, hblockHash⟩ := Option.bind_eq_some_iff.mp hhash
      have hat : t.hashAt height = some storedHash := by
        rw [Tables.hashAt, hstored block hblock]
        exact hblockHash
      -- a height that is doomed joins the list, and the scan goes one down
      have hnext : ∀ w₂ : World cfg.weight, Idle w₂ → w₂.db = t →
          (scanHaltedWalk tip storedTip lowest n (height - 1)
            (doomed ++ [(height, some storedHash)]) : Decoder cfg HaltedRead).wp env w₂
            (Reads w₂ (fun read => ∀ s d f, read = .forkAt s d f →
              s = storedTip ∧ Doomed t storedTip d ∧ d.length < doomed.length + (n + 1))) := by
        intro w₂ hidle₂ hdb₂
        refine Proc.wp_mono (ih (height - 1) _ hidle₂ hdb₂ (hdoomed.append hheight hat) ?_) ?_
        · rw [hheight, List.length_append, List.length_singleton]
          omega
        · intro r w₃ h
          refine h.weaken (fun read hread s d f heq => ?_)
          obtain ⟨hs, hd, hlt⟩ := hread s d f heq
          refine ⟨hs, hd, ?_⟩
          rw [List.length_append, List.length_singleton] at hlt
          omega
      dsimp only
      by_cases habove : (tip.any fun nodeTip => decide (nodeTip < height)) = true
      · rw [if_pos habove]
        exact hnext w₁ hidle₁ (hdb₁.trans hdb)
      · rw [if_neg habove]
        refine wp_reads_bind (wp_readNodeBlockHash_reads height hidle₁) ?_
        intro first w₂ _ hidle₂ hdb₂
        have hsecond : (if first.isNone then pure none else readNodeBlockHash height :
            Decoder cfg (Option Hash)).wp env w₂ (Reads w₂ (fun _ => True)) := by
          by_cases hfirst : first.isNone = true
          · rw [if_pos hfirst]
            exact wp_pure_reads hidle₂ trivial
          · rw [if_neg hfirst]
            exact wp_readNodeBlockHash_reads height hidle₂
        refine wp_reads_bind hsecond ?_
        intro second w₃ _ hidle₃ hdb₃
        have hdb₃' : w₃.db = t := hdb₃.trans (hdb₂.trans (hdb₁.trans hdb))
        -- a height the node cannot be read at stops the walk
        cases first with
        | none => exact hstop _ w₃ hidle₃
        | some first =>
          cases second with
          | none => exact hstop _ w₃ hidle₃
          | some second =>
            dsimp only
            by_cases hdiffer : first ≠ second
            · rw [if_pos hdiffer]
              exact hstop _ w₃ hidle₃
            · rw [if_neg hdiffer]
              by_cases hfork : first = storedHash
              · -- both readings agree with the stored block: the fork point
                rw [if_pos hfork]
                refine wp_pure_reads hidle₃ (fun s d f heq => ?_)
                cases heq
                exact ⟨rfl, hdoomed, by omega⟩
              · rw [if_neg hfork]
                exact hnext w₃ hidle₃ hdb₃'

/-- What the halted walk reads fits its budget and stays above the start height. -/
theorem wp_readHaltedWalk (tip : Option Int) (budget : Int) (hw : Idle w) :
    (readHaltedWalk tip budget : Decoder cfg HaltedRead).wp env w (Reads w (fun read =>
      ∀ s d f, read = .forkAt s d f → s = w.db.getLastBlockIndex ∧ Doomed w.db s d ∧
        (d.length : Int) ≤ budget ∧ (d.length : Int) ≤ s - cfg.startBlockIndex)) := by
  refine wp_reads_bind (v := fun storedTip => ∀ s, storedTip = some s →
      s = w.db.getLastBlockIndex) ?_ ?_
  · refine wp_reads_tryCatch (v := fun storedTip => storedTip = some w.db.getLastBlockIndex)
      ?_ ?_ ?_
    · refine wp_reads_bind (wp_query_reads hw rfl Tables.getLastBlockIndex) ?_
      rintro s w₁ rfl hidle₁ _
      exact wp_pure_reads hidle₁ rfl
    · rintro _ rfl s hs
      cases hs
      rfl
    · intro _ w₁ hidle₁ _
      exact wp_pure_reads hidle₁ (fun _ h => by cases h)
  intro storedTip w₁ hstored hidle₁ hdb₁
  cases storedTip with
  | none => exact wp_pure_reads hidle₁ (fun _ _ _ h => by cases h)
  | some storedTip =>
    obtain rfl := hstored storedTip rfl
    refine Proc.wp_mono (wp_scanHaltedWalk tip _ _ _ _ [] hidle₁ hdb₁ trivial (by simp)) ?_
    intro r w₂ h
    refine h.weaken (fun read hread s d f heq => ?_)
    obtain ⟨rfl, hd, hlt⟩ := hread s d f heq
    refine ⟨rfl, hd, ?_⟩
    rw [List.length_nil, Nat.zero_add] at hlt
    omega

end XChainDecoder
