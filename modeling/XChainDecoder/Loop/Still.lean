import XChainDecoder.Ingest.Refine
import XChainDecoder.Loop.Rollback

/-! # Where a turn only looks

    Most of a turn asks the node and the database and changes nothing that is
    stored: the images of the tables, the cursor, the batch and the park stay. What
    is left of a turn is the pass, the rollback, and the steps that re-derive the
    cursor. -/

namespace XChainDecoder

open Proc Tables

variable {cfg : Config} {α β : Type}

/-! ## Section 1: The relation -/

/-- The log entries of deleted blocks. -/
def Observed.isDelete {weight : String → String} : Observed weight → Bool
  | .deleted .. => true
  | _           => false

/-- How many blocks the process has deleted so far. -/
def World.deletes {weight : String → String} (w : World weight) : Nat :=
  w.log.countP Observed.isDelete

structure Still {weight : String → String} (w w' : World weight) : Prop where
  db      : w'.db = w.db
  txn     : w'.txn = w.txn
  cursor  : w'.loop.lastProcessedBlockIndex = w.loop.lastProcessedBlockIndex
  batch   : w'.loop.blocksQuantity = w.loop.blocksQuantity
  parked  : w'.mem.reorgHaltParked = w.mem.reorgHaltParked
  deletes : w'.deletes = w.deletes

theorem Still.refl {weight : String → String} (w : World weight) : Still w w :=
  ⟨rfl, rfl, rfl, rfl, rfl, rfl⟩

theorem Still.trans {weight : String → String} {w w' w'' : World weight} (h : Still w w')
    (h' : Still w' w'') : Still w w'' where
  db      := h'.db.trans h.db
  txn     := h'.txn.trans h.txn
  cursor  := h'.cursor.trans h.cursor
  batch   := h'.batch.trans h.batch
  parked  := h'.parked.trans h.parked
  deletes := h'.deletes.trans h.deletes

theorem still_preorder {weight : String → String} : IsPreorderRel (@Still weight) :=
  ⟨Still.refl, Still.trans⟩

theorem Still.view {weight : String → String} {w w' : World weight} (h : Still w w') :
    w'.view = w.view := by
  unfold World.view
  rw [h.txn, h.db]

theorem Still.intact {w w' : World cfg.weight} (h : Still w w') (hI : Intact cfg w) :
    Intact cfg w' :=
  hI.congr h.db (.inl h.txn)

/-- A process that only looks. -/
def OnlyLooks (m : Decoder cfg α) : Prop := Stays (fun _ => True) Still m

/-- Whatever depends on no more than what it leaves alone is kept. -/
theorem OnlyLooks.maintains {m : Decoder cfg α} (hm : OnlyLooks m) {P : World cfg.weight → Prop}
    (hP : ∀ w w', Still w w' → P w → P w') :
    Maintains (images cfg) P m (fun _ => P) := by
  intro env w hI hw
  refine wp_mono (hm env w trivial) ?_
  intro r w' h
  have hstill : Still w w' := h.1
  refine ⟨?_, fun _ _ => hP w w' hstill hw⟩
  match r with
  | .ok a               => exact hstill.intact hI
  | .error (.thrown e)  => exact hstill.intact hI
  | .error .unfinished  => exact hstill.intact hI
  | .error .crashed     => exact (hstill.intact hI).db

/-! ## Section 2: Building blocks -/

section Rules

theorem onlyLooks_pure (a : α) : OnlyLooks (pure a : Decoder cfg α) := stays_pure still_preorder a

theorem onlyLooks_throw (e : Failure) : OnlyLooks (throw e : Decoder cfg α) :=
  stays_throw still_preorder e

theorem onlyLooks_get : OnlyLooks (get : Decoder cfg (World cfg.weight)) := stays_get still_preorder

theorem OnlyLooks.bind {m : Decoder cfg α} {f : α → Decoder cfg β} (hm : OnlyLooks m)
    (hf : ∀ a, OnlyLooks (f a)) : OnlyLooks (m >>= f) :=
  stays_bind still_preorder hm hf

theorem OnlyLooks.tryCatch {m : Decoder cfg α} {h : Failure → Decoder cfg α} (hm : OnlyLooks m)
    (hh : ∀ e, OnlyLooks (h e)) : OnlyLooks (tryCatch m h) :=
  stays_tryCatch still_preorder hm hh

theorem OnlyLooks.ite {c : Prop} [Decidable c] {m m' : Decoder cfg α} (hm : OnlyLooks m)
    (hm' : OnlyLooks m') : OnlyLooks (if c then m else m') :=
  stays_ite hm hm'

theorem OnlyLooks.map {m : Decoder cfg α} (g : α → β) (hm : OnlyLooks m) : OnlyLooks (g <$> m) :=
  hm.bind (fun a => onlyLooks_pure (g a))

theorem still_tock (env : Env) (w : World cfg.weight) : Still w (w.tock env) where
  db      := tock_db env w
  txn     := tock_txn env w
  cursor  := by rw [tock_loop]
  batch   := by rw [tock_loop]
  parked  := tock_mem_parked env w
  deletes := by unfold World.deletes; rw [tock_log]

theorem onlyLooks_answered (f : Env → Nat → α) : OnlyLooks (answered f : Decoder cfg α) :=
  fun env w _ => wp_answered ⟨Still.refl w, fun _ => trivial⟩ ⟨still_tock env w, fun _ => trivial⟩

theorem onlyLooks_sleep : OnlyLooks (sleep : Decoder cfg Unit) :=
  fun env w _ => wp_sleep ⟨Still.refl w, fun _ => trivial⟩ ⟨still_tock env w, fun _ => trivial⟩

theorem onlyLooks_dateNow : OnlyLooks (dateNow : Decoder cfg Nat) :=
  fun _ w _ => ⟨Still.refl w, fun _ => trivial⟩

theorem onlyLooks_query (f : Tables cfg.weight → α) : OnlyLooks (query f : Decoder cfg α) :=
  (onlyLooks_answered _).bind (fun _ =>
    (onlyLooks_throw _).ite (onlyLooks_get.bind (fun _ => onlyLooks_pure _)))

theorem onlyLooks_observe {o : Observed cfg.weight} (ho : o.isDelete = false) :
    OnlyLooks (observe o : Decoder cfg Unit) := by
  intro _ w _
  refine ⟨⟨rfl, rfl, rfl, rfl, rfl, ?_⟩, fun _ => trivial⟩
  show (o :: w.log).countP _ = _
  rw [List.countP_cons, ho]
  rfl

/-- A change of the fields that are left. -/
theorem onlyLooks_modify {f : World cfg.weight → World cfg.weight} (h : ∀ w, Still w (f w)) :
    OnlyLooks (modify f : Decoder cfg PUnit) :=
  fun _ w _ => ⟨h w, fun _ => trivial⟩

theorem onlyLooks_updateMem {f : Memory → Memory}
    (h : ∀ mem, (f mem).reorgHaltParked = mem.reorgHaltParked) :
    OnlyLooks (updateMem f : Decoder cfg Unit) :=
  onlyLooks_modify (fun w => ⟨rfl, rfl, rfl, rfl, h w.mem, rfl⟩)

theorem onlyLooks_updateLoop {f : LoopState → LoopState}
    (hcursor : ∀ loop, (f loop).lastProcessedBlockIndex = loop.lastProcessedBlockIndex)
    (hbatch : ∀ loop, (f loop).blocksQuantity = loop.blocksQuantity) :
    OnlyLooks (updateLoop f : Decoder cfg Unit) :=
  onlyLooks_modify (fun w => ⟨rfl, rfl, hcursor w.loop, hbatch w.loop, rfl, rfl⟩)

end Rules

/-! ## Section 3: Asking the node -/

section Node

theorem onlyLooks_getBlockHash (height : Int) : OnlyLooks (getBlockHash height : Decoder cfg Hash) := by
  refine (onlyLooks_answered _).bind (fun answer => ?_)
  refine (onlyLooks_observe rfl).bind (fun _ => ?_)
  split
  · exact onlyLooks_pure _
  · exact onlyLooks_throw _

theorem onlyLooks_readNodeBlockHash (height : Int) :
    OnlyLooks (readNodeBlockHash height : Decoder cfg (Option Hash)) :=
  ((onlyLooks_getBlockHash height).map _).tryCatch (fun _ => onlyLooks_pure _)

theorem onlyLooks_getBlockchainInfo : OnlyLooks (getBlockchainInfo : Decoder cfg InfoAnswer) :=
  (onlyLooks_answered _).bind (fun _ => (onlyLooks_observe rfl).bind (fun _ => onlyLooks_pure _))

theorem onlyLooks_verifyChainGenesis : OnlyLooks (verifyChainGenesis : Decoder cfg Bool) := by
  unfold verifyChainGenesis
  split
  · exact onlyLooks_pure _
  · refine (((onlyLooks_getBlockHash 0).map _).tryCatch (fun _ => onlyLooks_pure _)).bind
      (fun reported => ?_)
    split
    · exact onlyLooks_pure _
    · refine (onlyLooks_pure _).ite (onlyLooks_dateNow.bind (fun now => ?_))
      exact (onlyLooks_updateMem (by intro _; rfl)).bind (fun _ => onlyLooks_pure _)

theorem onlyLooks_settleNodeReading [DecidableEq α] {readOnce : Decoder cfg (Option α)}
    (hread : OnlyLooks readOnce) (reads : Nat) (previous : α) :
    OnlyLooks (settleNodeReading readOnce reads previous) := by
  induction reads generalizing previous with
  | zero => exact onlyLooks_pure _
  | succ reads ih =>
    refine onlyLooks_sleep.bind (fun _ => hread.bind (fun next => ?_))
    split
    · exact onlyLooks_pure _
    · exact (onlyLooks_pure _).ite (ih _)

theorem onlyLooks_refuseChainTip : OnlyLooks (refuseChainTip : Decoder cfg Bool) :=
  (onlyLooks_updateLoop (by intro _; rfl) (by intro _; rfl)).bind
    (fun _ => onlyLooks_sleep.bind (fun _ => onlyLooks_pure _))

theorem onlyLooks_foreignGenesis : OnlyLooks (foreignGenesis : Decoder cfg Bool) :=
  onlyLooks_dateNow.bind (fun _ => onlyLooks_get.bind (fun _ =>
    onlyLooks_verifyChainGenesis.ite (onlyLooks_pure _)))

theorem onlyLooks_fetchChainTip : OnlyLooks (fetchChainTip : Decoder cfg Bool) := by
  refine onlyLooks_getBlockchainInfo.bind (fun answer => ?_)
  split
  · exact onlyLooks_sleep.bind (fun _ => onlyLooks_pure _)
  · exact onlyLooks_refuseChainTip
  · refine (onlyLooks_updateLoop (by intro _; rfl) (by intro _; rfl)).bind (fun _ => ?_)
    split
    · exact onlyLooks_refuseChainTip
    · refine onlyLooks_refuseChainTip.ite (onlyLooks_foreignGenesis.bind (fun foreign => ?_))
      refine onlyLooks_refuseChainTip.ite (onlyLooks_refuseChainTip.ite ?_)
      refine onlyLooks_dateNow.bind (fun now => (onlyLooks_updateMem (by intro _; rfl)).bind (fun _ => ?_))
      exact (onlyLooks_updateLoop (by intro _; rfl) (by intro _; rfl)).bind (fun _ => onlyLooks_pure _)

theorem onlyLooks_readChainTip : OnlyLooks (readChainTip : Decoder cfg (Option Int)) :=
  onlyLooks_fetchChainTip.bind (fun _ => onlyLooks_get.bind (fun _ =>
    (onlyLooks_pure _).ite (onlyLooks_pure _)))

theorem onlyLooks_settleTipBelow (cursor : Int) :
    OnlyLooks (settleTipBelow cursor : Decoder cfg Bool) := by
  refine onlyLooks_get.bind (fun w => ?_)
  refine (onlyLooks_settleNodeReading onlyLooks_readChainTip _ _).bind (fun settled => ?_)
  split
  · exact onlyLooks_pure _
  · exact onlyLooks_pure _

theorem onlyLooks_equalHeightSwapHolds (height : Int) (nodeHash : Hash) (storedHash : Option Hash) :
    OnlyLooks (equalHeightSwapHolds height nodeHash storedHash : Decoder cfg Bool) := by
  refine (onlyLooks_settleNodeReading (onlyLooks_readNodeBlockHash height) _ _).bind
    (fun settled => ?_)
  split
  · exact onlyLooks_pure _
  · exact onlyLooks_pure _

theorem onlyLooks_fetchNextBlock (height : Int) :
    OnlyLooks (fetchNextBlock height : Decoder cfg (Option (Hash × Option RawBlock))) := by
  refine OnlyLooks.tryCatch ?_ (fun _ => onlyLooks_sleep.bind (fun _ => onlyLooks_pure _))
  refine (onlyLooks_getBlockHash height).bind (fun hash => (onlyLooks_answered _).bind (fun answer => ?_))
  split
  · exact onlyLooks_throw _
  · exact onlyLooks_pure _
  · exact onlyLooks_pure _

end Node

/-! ## Section 4: Waits and probes -/

section Waits

theorem onlyLooks_setReorgWait (err : Failure) : OnlyLooks (setReorgWait err : Decoder cfg Unit) :=
  onlyLooks_updateMem (by intro _; rfl)

theorem onlyLooks_clearReorgWait : OnlyLooks (clearReorgWait : Decoder cfg Unit) :=
  onlyLooks_modify (fun _ => ⟨rfl, rfl, rfl, rfl, rfl, rfl⟩)

theorem onlyLooks_waitForProof (err : Failure) (cls : RefusalClass) :
    OnlyLooks (waitForProof err cls : Decoder cfg Turn) :=
  (onlyLooks_setReorgWait err).bind (fun _ =>
    (onlyLooks_updateLoop (by intro _; rfl) (by intro _; rfl)).bind (fun _ =>
      onlyLooks_sleep.bind (fun _ => onlyLooks_pure _)))

theorem adoptMarker_parked (mem : Memory) (now : Nat) (marker : HaltState) :
    (mem.adoptMarker now marker).reorgHaltParked = mem.reorgHaltParked := by
  unfold Memory.adoptMarker
  split <;> rfl

theorem still_adoptReading (w : World cfg.weight) (r : Reading) : Still w (w.adoptReading r) :=
  ⟨rfl, rfl, rfl, rfl, adoptMarker_parked w.mem r.issuedAt r.marker, rfl⟩

theorem still_failProbe (w : World cfg.weight) : Still w w.failProbe :=
  ⟨rfl, rfl, rfl, rfl, rfl, rfl⟩

theorem onlyLooks_checkReorgHalt (force : Bool) :
    OnlyLooks (checkReorgHalt force : Decoder cfg Unit) := by
  refine onlyLooks_dateNow.bind (fun now => onlyLooks_get.bind (fun w => (onlyLooks_pure _).ite ?_))
  refine onlyLooks_get.bind (fun w => ?_)
  split
  · refine (onlyLooks_answered _).bind (fun fails => onlyLooks_modify (fun w => ?_))
    -- the probe that was waited for may have answered meanwhile
    cases hflight : w.inFlight with
    | none => exact Still.refl w
    | some r =>
      by_cases hfails : fails = true
      · simp only [if_pos hfails]
        exact still_failProbe w
      · simp only [if_neg hfails]
        exact still_adoptReading w r
  · refine (onlyLooks_answered _).bind (fun fails => onlyLooks_modify (fun w => ?_))
    by_cases hfails : fails = true
    · rw [if_pos hfails]
      exact still_failProbe w
    · rw [if_neg hfails]
      exact still_adoptReading w _

theorem onlyLooks_watchPark : OnlyLooks (watchPark : Decoder cfg Unit) :=
  onlyLooks_modify (fun _ => ⟨rfl, rfl, rfl, rfl, rfl, rfl⟩)

theorem onlyLooks_readRolledBackAboveTip :
    OnlyLooks (readRolledBackAboveTip : Decoder cfg (Option Nat)) :=
  (((onlyLooks_query _).bind (fun _ => onlyLooks_query _)).map _).tryCatch (fun _ => onlyLooks_pure _)

end Waits

end XChainDecoder
