import Mathlib.Order.Interval.Finset.Nat
import Mathlib.Data.Int.Interval
import XChainDecoder.Reorg.Outcome

/-! # Depth and proof of every rollback

    `Safe` couples the stored tip, the REORG markers, the halt and the purges of
    a run: every height between the tip and the highest height ever committed
    carries a marker, so the depth a later process counts is the depth that was
    really rolled back. Each call of `verifyReorg` keeps it, in whatever way the
    call ends, and so does every other step of a run. -/

namespace XChainDecoder

variable {weight : String → String} {cfg : Config} {env : Env} {w w' : World cfg.weight}

/-! ## Section 1: What the log says -/

/-- The highest height a block was ever committed at. -/
def highestCommitted (start : Int) : List (Observed weight) → Int
  | []                           => start - 1
  | .committed blockIndex :: log => max blockIndex (highestCommitted start log)
  | _ :: log                     => highestCommitted start log

/-- Every delete took the stored tip with the hash stored there, and rests on the
    node's proof for that hash. -/
def ProofBacked : List (Observed weight) → Prop
  | []                                      => True
  | .deleted blockIndex hash before :: log  =>
      (blockIndex = before.getLastBlockIndex ∧ hash.isSome = true ∧
        before.hashAt blockIndex = hash ∧ ProofFor hash log) ∧ ProofBacked log
  | _ :: log                                => ProofBacked log

theorem highestCommitted_answers (start : Int) {news log : List (Observed weight)}
    (h : ∀ o ∈ news, o.isAnswer = true) :
    highestCommitted start (news ++ log) = highestCommitted start log := by
  induction news with
  | nil => rfl
  | cons o news ih =>
    have ih := ih (fun o' ho' => h o' (List.mem_cons_of_mem _ ho'))
    have ho := h o List.mem_cons_self
    cases o <;> first | exact ih | cases ho

theorem proofBacked_answers {news log : List (Observed weight)}
    (h : ∀ o ∈ news, o.isAnswer = true) : ProofBacked (news ++ log) ↔ ProofBacked log := by
  induction news with
  | nil => exact Iff.rfl
  | cons o news ih =>
    have ih := ih (fun o' ho' => h o' (List.mem_cons_of_mem _ ho'))
    have ho := h o List.mem_cons_self
    cases o <;> first | exact ih | cases ho

/-- The heights the REORG rows name. -/
def Tables.reorgMarks (t : Tables weight) : List Int :=
  t.reorgRows.flatMap (fun deleted => deleted.map Prod.fst)

theorem Tables.reorgHeights_eq {t : Tables weight} {limit : Nat} (h : t.reorgRowCount ≤ limit) :
    t.reorgHeights limit = t.reorgMarks := by
  unfold reorgHeights reorgMarks
  rw [List.take_of_length_le h]

theorem Tables.reorgMarks_congr {t t' : Tables weight} {news : List Event}
    (heq : t'.events = news ++ t.events) (hnews : ∀ e ∈ news, e.reorgPayload = none) :
    t'.reorgMarks = t.reorgMarks := by
  unfold reorgMarks reorgRows
  rw [heq, List.filterMap_append, List.filterMap_eq_nil_iff.mpr hnews, List.nil_append]

theorem Steady.reorgMarks_eq (hs : Steady w w') : w'.db.reorgMarks = w.db.reorgMarks := by
  obtain ⟨halts, heq, hall⟩ := hs.events
  refine Tables.reorgMarks_congr heq (fun e he => ?_)
  obtain ⟨r, rfl⟩ := hall e he
  rfl

/-! ## Section 2: The invariant -/

structure Safe (cfg : Config) (w : World cfg.weight) : Prop where
  wf       : w.db.toChainRows.Wf
  interval : w.db.toChainRows.Interval cfg.startBlockIndex
  hashed   : w.db.Hashed
  sound    : HaltSound w
  cache    : CacheUnproven w.mem
  backed   : ProofBacked w.log
  /-- a height that was rolled back and not stored again carries a marker -/
  marked   : ∀ h, w.db.chainTip cfg.startBlockIndex < h →
    h ≤ highestCommitted cfg.startBlockIndex w.log → h ∈ w.db.reorgMarks
  marks    : ∀ h ∈ w.db.reorgMarks,
    cfg.startBlockIndex ≤ h ∧ h ≤ highestCommitted cfg.startBlockIndex w.log
  tip_le   : w.db.chainTip cfg.startBlockIndex ≤ highestCommitted cfg.startBlockIndex w.log
  /-- no rollback passes the window without a halt that was read back -/
  depth    : highestCommitted cfg.startBlockIndex w.log - w.db.chainTip cfg.startBlockIndex ≤
    cfg.safeDepth ∨ w.haltConfirmed = true
  /-- and none passes twice the window -/
  twice    : highestCommitted cfg.startBlockIndex w.log - w.db.chainTip cfg.startBlockIndex ≤
    2 * cfg.safeDepth
  purged   : ∀ rows, Observed.purged rows ∈ w.log → ∀ d ∈ rows, ∀ mark,
    d.expiredBlockIndex = some mark → cfg.startBlockIndex ≤ mark ∧
      mark ≤ highestCommitted cfg.startBlockIndex w.log - cfg.safeDepth

theorem Safe.steady (h : Safe cfg w) (hs : Steady w w') : Safe cfg w' := by
  obtain ⟨news, hlog, hnews⟩ := hs.log
  have htip : w'.db.chainTip cfg.startBlockIndex = w.db.chainTip cfg.startBlockIndex := by
    rw [hs.rows]
  have hhigh : highestCommitted cfg.startBlockIndex w'.log =
      highestCommitted cfg.startBlockIndex w.log := by
    rw [hlog, highestCommitted_answers _ hnews]
  have hmarks : w'.db.reorgMarks = w.db.reorgMarks := hs.reorgMarks_eq
  have hpurged : ∀ rows, Observed.purged rows ∈ w'.log → Observed.purged rows ∈ w.log := by
    intro rows hmem
    rw [hlog] at hmem
    rcases List.mem_append.mp hmem with hmem | hmem
    · cases hnews _ hmem
    · exact hmem
  exact
    { wf       := by rw [hs.rows]; exact h.wf
      interval := by rw [hs.rows]; exact h.interval
      hashed   := h.hashed.congr (congrArg ChainRows.blocks hs.rows) hs.hashes
      sound    := hs.sound h.sound
      cache    := hs.cache h.cache
      backed   := by rw [hlog, proofBacked_answers hnews]; exact h.backed
      marked   := by rw [htip, hhigh, hmarks]; exact h.marked
      marks    := by rw [hhigh, hmarks]; exact h.marks
      tip_le   := by rw [htip, hhigh]; exact h.tip_le
      depth    := by rw [htip, hhigh]; exact h.depth.imp_right hs.confirmed
      twice    := by rw [htip, hhigh]; exact h.twice
      purged   := by rw [hhigh]; exact fun rows hmem => h.purged rows (hpurged rows hmem) }

/-- The counted depth is the real one. -/
theorem Safe.rolledBackDepth_eq (h : Safe cfg w) (hrows : w.db.reorgRowCount ≤ REORG_SCAN_LIMIT) :
    (w.db.rolledBackDepth : Int) =
      highestCommitted cfg.startBlockIndex w.log - w.db.chainTip cfg.startBlockIndex := by
  unfold Tables.rolledBackDepth Tables.countReorgDeletesAbove
  rw [Tables.reorgHeights_eq hrows, ← List.card_toFinset]
  have hset : (w.db.reorgMarks.filter (fun h => decide (w.db.getLastBlockIndex < h))).toFinset =
      Finset.Ioc (w.db.chainTip cfg.startBlockIndex)
        (highestCommitted cfg.startBlockIndex w.log) := by
    ext i
    rw [List.mem_toFinset, List.mem_filter, Finset.mem_Ioc, decide_eq_true_iff]
    constructor
    · rintro ⟨hmem, hlt⟩
      obtain ⟨hge, hle⟩ := h.marks i hmem
      refine ⟨?_, hle⟩
      show max w.db.getLastBlockIndex (cfg.startBlockIndex - 1) < i
      omega
    · rintro ⟨hlt, hle⟩
      refine ⟨h.marked i hlt hle, ?_⟩
      have : w.db.getLastBlockIndex ≤ w.db.chainTip cfg.startBlockIndex := Int.le_max_left _ _
      omega
  have htip := h.tip_le
  rw [hset, Int.card_Ioc, Int.toNat_of_nonneg (by omega)]

/-- **A delete of the tip keeps the invariant**, where the depth allows it. -/
theorem Safe.deleted (h : Safe cfg w) {blockIndex : Int} {hash : Option Hash}
    (hd : Deleted blockIndex hash w w') (htip : blockIndex = w.db.getLastBlockIndex)
    (hge : cfg.startBlockIndex ≤ blockIndex) (hsome : hash.isSome = true)
    (hstored : w.db.hashAt blockIndex = hash) (hproof : ProofFor hash w.log)
    (hdepth : highestCommitted cfg.startBlockIndex w.log - w.db.chainTip cfg.startBlockIndex <
      cfg.safeDepth ∨ w.haltConfirmed = true)
    (htwice : highestCommitted cfg.startBlockIndex w.log - w.db.chainTip cfg.startBlockIndex <
      2 * cfg.safeDepth) :
    Safe cfg w' ∧
      w'.db.chainTip cfg.startBlockIndex = w.db.chainTip cfg.startBlockIndex - 1 ∧
      highestCommitted cfg.startBlockIndex w'.log =
        highestCommitted cfg.startBlockIndex w.log := by
  obtain ⟨storedHash, rfl⟩ := Option.isSome_iff_exists.mp hsome
  have hrows : w'.db.toChainRows = w.db.toChainRows.deleteBlock blockIndex := by
    rw [hd.db, Tables.deleteBlockByIndex_toChainRows]
  have hheights : ∀ i, i ∈ w'.db.heights ↔ i ∈ w.db.heights ∧ i ≠ blockIndex := by
    intro i
    rw [hrows]
    exact ChainRows.mem_heights_deleteBlock
  have htip' := ChainRows.chainTip_pop h.interval cfg.start_nonneg htip hge hheights
  have hlast := ChainRows.getLastBlockIndex_eq (c := w.db.toChainRows) (.inl (htip ▸ hge))
  have hhigh : highestCommitted cfg.startBlockIndex w'.log =
      highestCommitted cfg.startBlockIndex w.log := by
    rw [hd.log]
    rfl
  have hmarks : ∀ i, i ∈ w'.db.reorgMarks ↔ i = blockIndex ∨ i ∈ w.db.reorgMarks := by
    intro i
    unfold Tables.reorgMarks Tables.reorgRows
    rw [hd.db, Tables.deleteBlockByIndex_events]
    simp [Event.reorgPayload]
  have hle := h.tip_le
  refine ⟨?_, htip', hhigh⟩
  exact
    { wf       := by rw [hrows]; exact h.wf.deleteBlock
      interval := h.interval.pop cfg.start_nonneg htip hge hheights
      hashed   := by rw [hd.db]; exact h.hashed.deleteBlockByIndex _ _
      sound    := hd.sound h.sound
      cache    := hd.cache h.cache
      backed   := by
        rw [hd.log]
        exact ⟨⟨htip, hsome, hstored, hproof⟩, h.backed⟩
      marked   := by
        intro i hlt hle
        rw [htip'] at hlt
        rw [hhigh] at hle
        rw [hmarks]
        -- the deleted height got its REORG row in the same transaction
        by_cases hi : i = blockIndex
        · exact .inl hi
        · refine .inr (h.marked i ?_ hle)
          have : blockIndex = w.db.chainTip cfg.startBlockIndex := htip.trans hlast
          omega
      marks    := by
        intro i hi
        rw [hhigh]
        rcases (hmarks i).mp hi with rfl | hi
        · have : i = w.db.chainTip cfg.startBlockIndex := htip.trans hlast
          omega
        · exact h.marks i hi
      tip_le   := by rw [htip', hhigh]; omega
      depth    := by
        rw [htip', hhigh]
        exact hdepth.imp (fun hlt => by omega) hd.confirmed
      twice    := by rw [htip', hhigh]; omega
      purged   := by
        rw [hhigh]
        intro rows hmem
        rw [hd.log] at hmem
        rcases List.mem_cons.mp hmem with hmem | hmem
        · cases hmem
        · exact h.purged rows hmem }

/-! ## Section 3: The rounds of a walk -/

/-- The depth rolled back so far, across passes and restarts. -/
def rolledBack (cfg : Config) (w : World cfg.weight) : Int :=
  highestCommitted cfg.startBlockIndex w.log - w.db.chainTip cfg.startBlockIndex

/-- However a call ends, the invariant holds, and no transaction is left open by
    a process that is still alive. -/
def Ends {α : Type} (cfg : Config) (r : Except (Stop Failure) α) (w : World cfg.weight) : Prop :=
  Safe cfg w ∧ (r ≠ .error .crashed → Idle w)

/-- Between two rounds: the depth read at the start and the blocks deleted since
    make up the real depth, and a recorded halt was read back. -/
structure OnWalk (cfg : Config) (priorDepth : Nat) (walk : Walk) (w : World cfg.weight) : Prop where
  safe    : Safe cfg w
  idle    : Idle w
  counted : ((priorDepth + walk.blocksDeleted.length : Nat) : Int) = rolledBack cfg w
  halted  : walk.haltError.isSome = true → w.haltConfirmed = true

/-- What a part of a round comes to. -/
def Walks (cfg : Config) (priorDepth : Nat) (r : Except (Stop Failure) Walk)
    (w : World cfg.weight) : Prop :=
  Ends cfg r w ∧ ∀ walk, r = .ok walk → OnWalk cfg priorDepth walk w

theorem Ends.error {α β : Type} {e : Stop Failure} (h : Ends cfg (.error e : Except _ α) w) :
    Ends cfg (.error e : Except _ β) w :=
  ⟨h.1, fun he => h.2 (by simpa using he)⟩

theorem Walks.error {e : Stop Failure} {priorDepth : Nat} (hsafe : Safe cfg w)
    (hidle : e ≠ .crashed → Idle w) : Walks cfg priorDepth (.error e) w :=
  ⟨⟨hsafe, fun he => hidle (by simpa using he)⟩, fun _ h => by cases h⟩

theorem rolledBack_steady (hs : Steady w w') : rolledBack cfg w' = rolledBack cfg w := by
  obtain ⟨news, hlog, hnews⟩ := hs.log
  unfold rolledBack
  rw [hs.rows, hlog, highestCommitted_answers _ hnews]

section Rounds

variable {priorDepth : Nat} {walk : Walk}

theorem OnWalk.steady {walk' : Walk} (h : OnWalk cfg priorDepth walk w) (hs : Steady w w')
    (hidle : Idle w') (hdeleted : walk'.blocksDeleted = walk.blocksDeleted)
    (hhalted : walk'.haltError = walk.haltError ∨ w'.haltConfirmed = true) :
    OnWalk cfg priorDepth walk' w' where
  safe    := h.safe.steady hs
  idle    := hidle
  counted := by rw [rolledBack_steady hs, hdeleted]; exact h.counted
  halted  := by
    intro hsome
    rcases hhalted with heq | hconfirmed
    · exact hs.confirmed (h.halted (heq ▸ hsome))
    · exact hconfirmed

/-- The delete of a round, after the proof and the depth check. -/
theorem OnWalk.wp_delete (h : OnWalk cfg priorDepth walk w) (aboveTip : Bool) {blockIndex : Int}
    {hash : Option Hash} (hnone : walk.haltError = none)
    (htip : blockIndex = w.db.getLastBlockIndex) (hge : cfg.startBlockIndex ≤ blockIndex)
    (hsome : hash.isSome = true) (hstored : w.db.hashAt blockIndex = hash)
    (hproof : ProofFor hash w.log)
    (hroom : priorDepth + walk.blocksDeleted.length < cfg.safeDepth) :
    (deleteWithRetry aboveTip blockIndex hash walk : Decoder cfg Walk).wp env w
      (Walks cfg priorDepth) := by
  have hcounted := h.counted
  unfold rolledBack at hcounted
  refine Proc.wp_mono (wp_deleteWithRetry aboveTip blockIndex hash walk h.idle) ?_
  rintro r w' (⟨hdeleted, walk', rfl, herror, hblocks⟩ | ⟨hs, hidle, hwalk⟩)
  · obtain ⟨hsafe, htip', hhigh⟩ := h.safe.deleted hdeleted htip hge hsome hstored hproof
      (.inl (by omega)) (by omega)
    refine ⟨⟨hsafe, fun _ => hdeleted.idle⟩, fun walk'' heq => ?_⟩
    cases heq
    refine ⟨hsafe, hdeleted.idle, ?_, fun hs => by rw [herror, hnone] at hs; cases hs⟩
    unfold rolledBack
    rw [htip', hhigh, hblocks, List.length_append, List.length_singleton]
    omega
  · refine ⟨⟨h.safe.steady hs, hidle⟩, fun walk' heq => ?_⟩
    obtain ⟨herror, hblocks⟩ := hwalk walk' heq
    exact h.steady hs (hidle (by simp [heq])) hblocks (.inl herror)

/-- The depth check and the delete behind it. -/
theorem OnWalk.wp_assertAndDelete (h : OnWalk cfg priorDepth walk w) (aboveTip : Bool)
    {blockIndex : Int} {hash : Option Hash} (hnone : walk.haltError = none)
    (htip : blockIndex = w.db.getLastBlockIndex) (hge : cfg.startBlockIndex ≤ blockIndex)
    (hsome : hash.isSome = true) (hstored : w.db.hashAt blockIndex = hash)
    (hproof : ProofFor hash w.log) :
    (do
      let walk ← assertWithinSafeDepth blockIndex priorDepth walk
      if walk.haltError.isSome then return walk
      else deleteWithRetry aboveTip blockIndex hash walk : Decoder cfg Walk).wp env w
      (Walks cfg priorDepth) := by
  refine Proc.wp_seq (wp_assertWithinSafeDepth blockIndex priorDepth h.idle hnone) ?_ ?_
  · rintro walk₁ w₁ ⟨hs₁, hidle₁, hcases⟩
    rcases hcases walk₁ rfl with ⟨rfl, rfl, hroom⟩ | ⟨herror, hblocks, hconfirmed⟩
    · rw [if_neg (by simp [hnone])]
      exact h.wp_delete aboveTip hnone htip hge hsome hstored hproof hroom
    · rw [if_pos herror]
      refine ⟨⟨h.safe.steady hs₁, fun _ => hidle₁ (by simp)⟩, fun walk' heq => ?_⟩
      cases heq
      exact h.steady hs₁ (hidle₁ (by simp)) hblocks (.inr hconfirmed)
  · rintro e w₁ ⟨hs₁, hidle₁, -⟩
    exact .error (h.safe.steady hs₁) (fun he => hidle₁ (by simpa using he))

/-- What a steady step leaves of the facts about the tip block. -/
theorem Steady.tipBlock (hs : Steady w w') {blockIndex : Int} {hash : Option Hash}
    (htip : blockIndex = w.db.getLastBlockIndex) (hstored : w.db.hashAt blockIndex = hash) :
    blockIndex = w'.db.getLastBlockIndex ∧ w'.db.hashAt blockIndex = hash := by
  refine ⟨htip.trans ?_, Eq.trans ?_ hstored⟩
  · unfold Tables.getLastBlockIndex
    rw [hs.rows]
  · unfold Tables.hashAt
    rw [Tables.getBlockByIndex_congr (congrArg ChainRows.blocks hs.rows) hs.hashes]

theorem OnWalk.wp_deleteForkedBlock (h : OnWalk cfg priorDepth walk w) {blockIndex : Int}
    {hash : Option Hash} (hnone : walk.haltError = none)
    (htip : blockIndex = w.db.getLastBlockIndex) (hge : cfg.startBlockIndex ≤ blockIndex)
    (hsome : hash.isSome = true) (hstored : w.db.hashAt blockIndex = hash) :
    (deleteForkedBlock blockIndex hash priorDepth walk : Decoder cfg Walk).wp env w
      (Walks cfg priorDepth) := by
  refine Proc.wp_seq (wp_requireReorgProof blockIndex hash walk.nodeTip h.idle h.safe.cache) ?_ ?_
  · rintro _ w₁ ⟨hs₁, hidle₁, hproof₁⟩
    obtain ⟨htip₁, hstored₁⟩ := hs₁.tipBlock htip hstored
    have h₁ := h.steady hs₁ (hidle₁ (by simp)) rfl (.inl rfl)
    exact h₁.wp_assertAndDelete false hnone htip₁ hge hsome hstored₁ (hproof₁ rfl)
  · rintro e w₁ ⟨hs₁, hidle₁, -⟩
    exact .error (h.safe.steady hs₁) (fun he => hidle₁ (by simpa using he))

theorem OnWalk.wp_deleteAboveTipBlock (h : OnWalk cfg priorDepth walk w) {blockIndex : Int}
    {hash : Option Hash} (nodeTip : Int) (hnone : walk.haltError = none)
    (htip : blockIndex = w.db.getLastBlockIndex) (hge : cfg.startBlockIndex ≤ blockIndex)
    (hsome : hash.isSome = true) (hstored : w.db.hashAt blockIndex = hash) :
    (deleteAboveTipBlock blockIndex hash nodeTip priorDepth walk : Decoder cfg Walk).wp env w
      (Walks cfg priorDepth) := by
  refine Proc.wp_seq (wp_refuseOrHaltDeepGap blockIndex hash nodeTip priorDepth walk h.idle) ?_ ?_
  · rintro walk₁ w₁ ⟨hs₁, hidle₁, hcases⟩
    rcases hcases walk₁ rfl with rfl | ⟨herror, hblocks, hconfirmed⟩
    · rw [if_neg (by simp [hnone])]
      obtain ⟨htip₁, hstored₁⟩ := hs₁.tipBlock htip hstored
      have h₁ := h.steady hs₁ (hidle₁ (by simp)) rfl (.inl rfl)
      refine Proc.wp_seq
        (wp_requireReorgProof blockIndex hash (some nodeTip) h₁.idle h₁.safe.cache) ?_ ?_
      · rintro _ w₂ ⟨hs₂, hidle₂, hproof₂⟩
        obtain ⟨htip₂, hstored₂⟩ := hs₂.tipBlock htip₁ hstored₁
        have h₂ := h₁.steady hs₂ (hidle₂ (by simp)) rfl (.inl rfl)
        exact h₂.wp_assertAndDelete true hnone htip₂ hge hsome hstored₂ (hproof₂ rfl)
      · rintro e w₂ ⟨hs₂, hidle₂, -⟩
        exact .error (h₁.safe.steady hs₂) (fun he => hidle₂ (by simpa using he))
    · rw [if_pos herror]
      refine ⟨⟨h.safe.steady hs₁, fun _ => hidle₁ (by simp)⟩, fun walk' heq => ?_⟩
      cases heq
      exact h.steady hs₁ (hidle₁ (by simp)) hblocks (.inr hconfirmed)
  · rintro e w₁ ⟨hs₁, hidle₁, -⟩
    exact .error (h.safe.steady hs₁) (fun he => hidle₁ (by simpa using he))

/-! ## Section 4: The halted walk -/

theorem Doomed.congr {t t' : Tables weight} {height : Int} {doomed : List (Int × Option Hash)}
    (h : Doomed t height doomed) (hsame : ∀ i, i ≤ height → t'.hashAt i = t.hashAt i) :
    Doomed t' height doomed := by
  induction doomed generalizing height with
  | nil => trivial
  | cons block rest ih =>
    obtain ⟨hheight, hsome, hstored, hrest⟩ := h
    exact ⟨hheight, hsome, (hsame height (Int.le_refl _)).trans hstored,
      ih hrest (fun i hi => hsame i (by omega))⟩

/-- The doomed blocks go from the tip down, each on its own proof; the budget
    keeps their number within twice the window. -/
theorem wp_deleteProvenBlocks (doomed blocksDeleted : List (Int × Option Hash))
    (hsafe : Safe cfg w) (hw : Idle w) (hconfirmed : w.haltConfirmed = true)
    (hdoomed : Doomed w.db w.db.getLastBlockIndex doomed)
    (hlow : (doomed.length : Int) ≤ w.db.getLastBlockIndex - cfg.startBlockIndex ∨ doomed = [])
    (hbudget : rolledBack cfg w + doomed.length ≤ 2 * cfg.safeDepth) :
    (deleteProvenBlocks doomed blocksDeleted :
      Decoder cfg (List (Int × Option Hash) × Option HaltStop)).wp env w (Ends cfg) := by
  induction doomed generalizing w blocksDeleted with
  | nil => exact ⟨hsafe, fun _ => hw⟩
  | cons block rest ih =>
    obtain ⟨hheight, hsome, hstored, hrest⟩ := hdoomed
    have hlow : ((block :: rest).length : Int) ≤
        w.db.getLastBlockIndex - cfg.startBlockIndex := by
      rcases hlow with hlow | hlow
      · exact hlow
      · cases hlow
    rw [List.length_cons] at hlow hbudget
    refine Proc.wp_seq (wp_proveReorgedAway block.2 hw) ?_ ?_
    · rintro proof w₁ ⟨hs₁, hdb₁, hidle₁, hproof₁⟩
      have hidle₁ : Idle w₁ := hidle₁ (by simp)
      by_cases hproven : proof.proven = true
      · rw [if_pos hproven]
        refine Proc.wp_seq (wp_deleteHaltedBlock block 10 hidle₁ (hproof₁ proof rfl hproven)) ?_ ?_
        · rintro gone w₂ (⟨w', hs', hproof', hdeleted, heq⟩ | ⟨hs₂, hidle₂, hne⟩)
          · obtain rfl : gone = true := by injection heq
            rw [if_pos rfl]
            -- between the proof and the delete nothing that counts has changed
            have hs'' := hs₁.trans hs'
            obtain ⟨htip', hstored'⟩ := hs''.tipBlock hheight (hheight.symm ▸ hstored)
            have hrolled := rolledBack_steady hs''
            unfold rolledBack at hrolled hbudget
            obtain ⟨hsafe₂, htip₂, hhigh₂⟩ := (hsafe.steady hs'').deleted hdeleted htip'
              (by omega) hsome hstored' hproof' (.inr (hs''.confirmed hconfirmed)) (by omega)
            have hlast' : w'.db.getLastBlockIndex = w'.db.chainTip cfg.startBlockIndex :=
              ChainRows.getLastBlockIndex_eq (c := w'.db.toChainRows)
                (.inl (by show _ ≤ w'.db.getLastBlockIndex; omega))
            have hlast₂ : w₂.db.getLastBlockIndex = w₂.db.chainTip cfg.startBlockIndex :=
              ChainRows.getLastBlockIndex_eq (c := w₂.db.toChainRows) (.inr (by omega))
            refine ih _ hsafe₂ hdeleted.idle (hdeleted.confirmed (hs''.confirmed hconfirmed))
              ?_ (.inl (by omega)) ?_
            -- the rest of the doomed blocks lies below, where nothing was touched
            · rw [show w₂.db.getLastBlockIndex = w.db.getLastBlockIndex - 1 by omega]
              refine hrest.congr (fun i hi => ?_)
              unfold Tables.hashAt
              rw [hdeleted.db, Tables.getBlockByIndex_deleteBlockByIndex (by omega),
                Tables.getBlockByIndex_congr (congrArg ChainRows.blocks hs''.rows) hs''.hashes]
            · unfold rolledBack
              omega
          · have hgone : gone ≠ true := fun h => hne (by rw [h])
            rw [if_neg hgone]
            exact ⟨hsafe.steady (hs₁.trans hs₂), fun _ => hidle₂ (by simp)⟩
        · rintro e w₂ (⟨_, _, _, _, heq⟩ | ⟨hs₂, hidle₂, -⟩)
          · cases heq
          · exact ⟨hsafe.steady (hs₁.trans hs₂), fun he => hidle₂ (by simpa using he)⟩
      · rw [if_neg hproven]
        exact ⟨hsafe.steady hs₁, fun _ => hidle₁⟩
    · rintro e w₁ ⟨hs₁, -, hidle₁, -⟩
      exact ⟨hsafe.steady hs₁, fun he => hidle₁ (by simpa using he)⟩

theorem OnWalk.wp_finishHaltedWalk (h : OnWalk cfg priorDepth walk w)
    (hhalt : walk.haltError.isSome = true) :
    (finishHaltedWalk priorDepth walk : Decoder cfg Walk).wp env w (Ends cfg) := by
  refine Proc.wp_seq (wp_readHaltedWalk walk.nodeTip _ h.idle) ?_ ?_
  · rintro read w₁ ⟨hs₁, hdb₁, hidle, hread₁⟩
    have hsafe₁ := h.safe.steady hs₁
    have hidle₁ : Idle w₁ := hidle (by simp)
    cases read with
    | stop why => exact ⟨hsafe₁, fun _ => hidle₁⟩
    | forkAt storedTip doomed forkPoint =>
      obtain ⟨rfl, hdoomed, hbudget, hlow⟩ := hread₁ _ rfl _ _ _ rfl
      dsimp only
      by_cases habove : walk.nodeTip = some forkPoint ∧ forkPoint < w.db.getLastBlockIndex
      · rw [if_pos habove]
        exact ⟨hsafe₁, fun _ => hidle₁⟩
      · rw [if_neg habove]
        have hcounted := h.counted
        have hdelete : (deleteProvenBlocks doomed walk.blocksDeleted :
            Decoder cfg (List (Int × Option Hash) × Option HaltStop)).wp env w₁ (Ends cfg) := by
          refine wp_deleteProvenBlocks doomed _ hsafe₁ hidle₁ (hs₁.confirmed (h.halted hhalt))
            (by rw [hdb₁]; exact hdoomed) (.inl (by rw [hdb₁]; exact hlow)) ?_
          rw [rolledBack_steady hs₁]
          omega
        refine Proc.wp_seq hdelete ?_ (fun e w₂ h₂ => h₂.error)
        rintro ⟨blocksDeleted, haltStop⟩ w₂ h₂
        exact ⟨h₂.1, fun _ => h₂.2 (by simp)⟩
  · rintro e w₁ ⟨hs₁, -, hidle₁, -⟩
    exact ⟨h.safe.steady hs₁, fun he => hidle₁ (by simpa using he)⟩

/-! ## Section 5: A whole pass -/

/-- What a round comes to: the next round's start, or an end. -/
theorem OnWalk.wp_walkRound (h : OnWalk cfg priorDepth walk w) :
    (walkRound priorDepth walk : Decoder cfg (Walk ⊕ Walk)).wp env w
      (Proc.roundEnds (OnWalk cfg priorDepth) (Ends cfg)) := by
  unfold walkRound
  by_cases hhalt : walk.haltError.isSome = true
  · rw [if_pos hhalt]
    refine Proc.wp_seq (h.wp_finishHaltedWalk hhalt) ?_ (fun e w' h' => h'.error)
    exact fun _ w' h' => ⟨h'.1, fun _ => h'.2 (by simp)⟩
  rw [if_neg hhalt]
  have hnone : walk.haltError = none := by simpa using hhalt
  refine Proc.wp_seq (wp_readLastStoredBlock h.idle) ?_ ?_
  · rintro last w₁ ⟨hs₁, hdb₁, hidle, hlast₁⟩
    have hidle₁ : Idle w₁ := hidle (by simp)
    have h₁ : OnWalk cfg priorDepth walk w₁ := h.steady hs₁ hidle₁ rfl (.inl rfl)
    have hstop : Ends cfg (.ok walk : Except (Stop Failure) Walk) w₁ :=
      ⟨h₁.safe, fun _ => hidle₁⟩
    match last with
    | none => exact h₁
    | some (lastBlockIndex, none) => exact hstop
    | some (lastBlockIndex, some lastBlock) =>
      obtain ⟨hindex, hblock⟩ := hlast₁ _ rfl lastBlockIndex (some lastBlock) rfl
      rw [← hdb₁] at hindex hblock
      dsimp only
      by_cases hlow : lastBlockIndex < cfg.startBlockIndex
      · rw [if_pos hlow]
        exact hstop
      rw [if_neg hlow]
      have hge : cfg.startBlockIndex ≤ lastBlockIndex := by omega
      -- the block just read is the stored tip, under its own hash
      have hstored : w₁.db.hashAt lastBlockIndex = lastBlock.blockHash := by
        rw [Tables.hashAt, hindex, ← hblock]
        rfl
      have hsome : lastBlock.blockHash.isSome = true := by
        obtain ⟨hash, hhash⟩ := h₁.safe.hashed.of_getBlockByIndex hblock.symm
        rw [hhash]
        rfl
      have hgoOn : ∀ (r : Except (Stop Failure) Walk) (w₂ : World cfg.weight),
          Walks cfg priorDepth r w₂ → Proc.continuesWith
            (fun walk' => (pure (.inl walk') : Decoder cfg (Walk ⊕ Walk))) env
            (Proc.roundEnds (OnWalk cfg priorDepth) (Ends cfg)) r w₂ := by
        intro r w₂ hr
        cases r with
        | ok walk' => exact hr.2 walk' rfl
        | error e => exact hr.1.error
      cases habove : walk.nodeTip.filter (fun nodeTip => decide (nodeTip < lastBlockIndex)) with
      | some nodeTip =>
        exact Proc.wp_bind.mpr (Proc.wp_mono
          (h₁.wp_deleteAboveTipBlock nodeTip hnone hindex hge hsome hstored) hgoOn)
      | none =>
        have hread : Steadily (tryCatch (some <$> getBlockHash lastBlockIndex)
            (fun _ => return none) : Decoder cfg (Option Hash)) :=
          steadily_readNodeBlockHash lastBlockIndex
        refine Proc.wp_seq (hread env w₁ hidle₁) ?_ ?_
        · rintro blockHashFromNode w₂ ⟨hs₂, hidle₂⟩
          have h₂ : OnWalk cfg priorDepth walk w₂ := h₁.steady hs₂ (hidle₂ (by simp)) rfl (.inl rfl)
          cases blockHashFromNode with
          | none =>
            refine Proc.wp_seq (steadily_refreshReorgTip walk.nodeTip env w₂ h₂.idle) ?_ ?_
            · rintro nodeTip w₃ ⟨hs₃, hidle₃⟩
              have h₃ : OnWalk cfg priorDepth walk w₃ := h₂.steady hs₃ (hidle₃ (by simp)) rfl (.inl rfl)
              refine Proc.wp_seq (steadily_sleep env w₃ h₃.idle) ?_ ?_
              · rintro _ w₄ ⟨hs₄, hidle₄⟩
                exact h₃.steady hs₄ (hidle₄ (by simp)) rfl (.inl rfl)
              · rintro e w₄ ⟨hs₄, hidle₄⟩
                exact ⟨h₃.safe.steady hs₄, fun he => hidle₄ (by simpa using he)⟩
            · rintro e w₃ ⟨hs₃, hidle₃⟩
              exact ⟨h₂.safe.steady hs₃, fun he => hidle₃ (by simpa using he)⟩
          | some blockHashFromNode =>
            dsimp only
            by_cases hdiffer : lastBlock.blockHash ≠ some blockHashFromNode
            · rw [if_pos hdiffer]
              obtain ⟨htip₂, hstored₂⟩ := hs₂.tipBlock hindex hstored
              exact Proc.wp_bind.mpr (Proc.wp_mono
                (h₂.wp_deleteForkedBlock hnone htip₂ hge hsome hstored₂) hgoOn)
            · rw [if_neg hdiffer]
              exact ⟨h₂.safe, fun _ => h₂.idle⟩
        · rintro e w₂ ⟨hs₂, hidle₂⟩
          exact ⟨h₁.safe.steady hs₂, fun he => hidle₂ (by simpa using he)⟩
  · rintro e w₁ ⟨hs₁, -, hidle₁, -⟩
    exact ⟨h.safe.steady hs₁, fun he => hidle₁ (by simpa using he)⟩

theorem steadily_finishReorgRun (walk : Walk) :
    Steadily (finishReorgRun walk : Decoder cfg Unit) := by
  unfold finishReorgRun
  split
  · exact steadily_throw _
  · refine Steadily.ite (steadily_updateMem ?_ ?_) (steadily_pure _)
    · exact fun _ => rfl
    · exact fun _ h => h

/-- **A pass keeps the invariant**, however it ends. -/
theorem Safe.wp_verifyReorg (h : Safe cfg w) (hw : Idle w)
    (hrows : w.db.reorgRowCount ≤ REORG_SCAN_LIMIT) (rounds : Nat) (nodeTip : Option Int) :
    (verifyReorg rounds nodeTip : Decoder cfg Unit).wp env w (Ends cfg) := by
  refine Proc.wp_seq (wp_query_reads hw rfl Tables.isReorgHalted) ?_ ?_
  · rintro halted w₁ ⟨hs₁, hdb₁, hidle, -⟩
    have hidle₁ : Idle w₁ := hidle (by simp)
    by_cases hhalted : halted = true
    · rw [if_pos hhalted]
      refine Proc.wp_mono (steadily_refuseHaltedRollback env w₁ hidle₁) ?_
      rintro r w₂ ⟨hs₂, hidle₂⟩
      exact ⟨h.steady (hs₁.trans hs₂), hidle₂⟩
    rw [if_neg hhalted]
    refine Proc.wp_seq (wp_readPriorRollbackDepth hidle₁) ?_ ?_
    · rintro priorDepth w₂ ⟨hs₂, hdb₂, hidle, hprior⟩
      have hs₁₂ := hs₁.trans hs₂
      -- the depth that earlier runs used up is the one the events tell
      have hstart : OnWalk cfg priorDepth ⟨nodeTip, [], 0, none, none⟩ w₂ := by
        refine ⟨h.steady hs₁₂, hidle (by simp), ?_, fun hs => by cases hs⟩
        rw [rolledBack_steady hs₁₂, hprior priorDepth rfl, hdb₁]
        exact h.rolledBackDepth_eq hrows
      have hwalk : (walkReorg priorDepth rounds ⟨nodeTip, [], 0, none, none⟩ :
          Decoder cfg Walk).wp env w₂ (Ends cfg) :=
        Proc.wp_iterate (OnWalk cfg priorDepth) (fun walk w₃ h₃ => h₃.wp_walkRound)
          (fun walk w₃ h₃ => ⟨h₃.safe, fun _ => h₃.idle⟩) rounds _ w₂ hstart
      refine Proc.wp_seq hwalk ?_ (fun e w₃ h₃ => h₃.error)
      intro walk w₃ h₃
      refine Proc.wp_mono (steadily_finishReorgRun walk env w₃ (h₃.2 (by simp))) ?_
      rintro r w₄ ⟨hs₄, hidle₄⟩
      exact ⟨h₃.1.steady hs₄, hidle₄⟩
    · rintro e w₂ ⟨hs₂, -, hidle₂, -⟩
      exact ⟨h.steady (hs₁.trans hs₂), fun he => hidle₂ (by simpa using he)⟩
  · rintro e w₁ ⟨hs₁, -, hidle₁, -⟩
    exact ⟨h.steady hs₁, fun he => hidle₁ (by simpa using he)⟩

end Rounds

end XChainDecoder
