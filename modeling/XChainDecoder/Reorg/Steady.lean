import XChainDecoder.Reorg.Verify

/-! # Calls that delete nothing

    Everything a rollback does between two deletes is steady: the chain rows and
    the stored hashes stay, the `events` table gains at most halt rows, and the
    log gains at most answers. The only other thing `verifyReorg` does is
    `deleteBlockByIndex`, whose outcome is spelled out in `Deletes`. -/

namespace XChainDecoder

variable {weight : String → String}

/-! ## Section 1: The relation -/

/-- Log entries that record no change of the tables. -/
def Observed.isAnswer : Observed weight → Bool
  | .hashAnswer ..   => true
  | .headerAnswer .. => true
  | .infoAnswer ..   => true
  | .deleteFailed .. => true
  | .deleted ..      => false
  | .began ..        => false
  | .committed ..    => false
  | .purged ..       => false

/-- A proof is never cached. -/
def CacheUnproven (mem : Memory) : Prop :=
  ∀ e, mem.forkProofCache = some e → e.result.proven = false

theorem cacheUnproven_keepForkProof (mem : Memory) (nodeTip : Option Int) (hash : Option Hash)
    (now : Nat) (result : ForkProof) :
    CacheUnproven (mem.keepForkProof nodeTip hash now result) := by
  intro e he
  unfold Memory.keepForkProof at he
  by_cases hproven : result.proven = true
  · simp [hproven] at he
  · simp only [hproven] at he
    cases he
    exact Bool.eq_false_iff.mpr hproven

structure Steady (w w' : World weight) : Prop where
  rows      : w'.db.toChainRows = w.db.toChainRows
  hashes    : w'.db.indexTransactions = w.db.indexTransactions
  events    : ∃ halts, w'.db.events = halts ++ w.db.events ∧
    ∀ e ∈ halts, ∃ r, e = Event.reorgHalt r
  log       : ∃ news, w'.log = news ++ w.log ∧ ∀ o ∈ news, o.isAnswer = true
  loop      : w'.loop = w.loop
  sound     : HaltSound w → HaltSound w'
  confirmed : w.haltConfirmed = true → w'.haltConfirmed = true
  cache     : CacheUnproven w.mem → CacheUnproven w'.mem

theorem Steady.refl (w : World weight) : Steady w w where
  rows      := rfl
  hashes    := rfl
  events    := ⟨[], rfl, by simp⟩
  log       := ⟨[], rfl, by simp⟩
  loop      := rfl
  sound     := id
  confirmed := id
  cache     := id

theorem Steady.trans {w w' w'' : World weight} (h : Steady w w') (h' : Steady w' w'') :
    Steady w w'' where
  rows      := h'.rows.trans h.rows
  hashes    := h'.hashes.trans h.hashes
  events    := by
    obtain ⟨halts, heq, hall⟩ := h.events
    obtain ⟨halts', heq', hall'⟩ := h'.events
    refine ⟨halts' ++ halts, by rw [heq', heq, List.append_assoc], ?_⟩
    intro e he
    rcases List.mem_append.mp he with he | he
    · exact hall' e he
    · exact hall e he
  log       := by
    obtain ⟨news, heq, hall⟩ := h.log
    obtain ⟨news', heq', hall'⟩ := h'.log
    refine ⟨news' ++ news, by rw [heq', heq, List.append_assoc], ?_⟩
    intro o ho
    rcases List.mem_append.mp ho with ho | ho
    · exact hall' o ho
    · exact hall o ho
  loop      := h'.loop.trans h.loop
  sound     := h'.sound ∘ h.sound
  confirmed := h'.confirmed ∘ h.confirmed
  cache     := h'.cache ∘ h.cache

theorem steady_preorder : Proc.IsPreorderRel (@Steady weight) :=
  ⟨Steady.refl, Steady.trans⟩

/-- No block transaction is open. -/
def Idle (w : World weight) : Prop := w.txn = none

theorem Idle.view {w : World weight} (h : Idle w) : w.view = w.db := by
  have h' : w.txn = none := h
  simp [World.view, h']

/-- A process that starts with no open transaction, deletes nothing, and leaves
    none open. -/
def Steadily {cfg : Config} {α : Type} (m : Decoder cfg α) : Prop := Proc.Stays Idle Steady m

/-! ## Section 2: Awaits are steady -/

theorem steady_tock (env : Env) (w : World weight) : Steady w (w.tock env) where
  rows      := by rw [tock_db]
  hashes    := by rw [tock_db]
  events    := ⟨[], by simp, by simp⟩
  log       := ⟨[], by simp, by simp⟩
  loop      := tock_loop env w
  sound     := fun h => h.tock env
  confirmed := tock_haltConfirmed env
  cache     := fun h e he => h e (by rwa [tock_forkProofCache] at he)

theorem steady_log (w : World weight) {o : Observed weight} (ho : o.isAnswer = true) :
    Steady w { w with log := o :: w.log } where
  rows      := rfl
  hashes    := rfl
  events    := ⟨[], rfl, by simp⟩
  log       := ⟨[o], rfl, by simpa using ho⟩
  loop      := rfl
  sound     := fun h => ⟨h.persisted, h.confirmed, h.view, h.reading, h.audited⟩
  confirmed := id
  cache     := id

/-- Changing the decoder object is steady when its durability flag stays and no
    proof is cached. -/
theorem steady_mem (w : World weight) {f : Memory → Memory}
    (hf : (f w.mem).reorgHaltMarkerPersisted = w.mem.reorgHaltMarkerPersisted)
    (hcache : CacheUnproven w.mem → CacheUnproven (f w.mem)) :
    Steady w { w with mem := f w.mem } where
  rows      := rfl
  hashes    := rfl
  events    := ⟨[], rfl, by simp⟩
  log       := ⟨[], rfl, by simp⟩
  loop      := rfl
  sound     := fun h =>
    ⟨fun hp => h.persisted (hf ▸ hp), h.confirmed, h.view, h.reading, h.audited⟩
  confirmed := id
  cache     := hcache

theorem idle_tock {env : Env} {w : World weight} (h : Idle w) : Idle (w.tock env) :=
  (tock_txn env w).trans h

section Calls

variable {cfg : Config} {α : Type}

theorem steadily_pure (a : α) : Steadily (pure a : Decoder cfg α) :=
  Proc.stays_pure steady_preorder a

theorem steadily_throw (e : Failure) : Steadily (throw e : Decoder cfg α) :=
  Proc.stays_throw steady_preorder e

theorem steadily_fail (message : Message) : Steadily (fail message : Decoder cfg α) :=
  steadily_throw _

theorem steadily_get : Steadily (get : Decoder cfg (World cfg.weight)) :=
  Proc.stays_get steady_preorder

theorem Steadily.bind {β : Type} {m : Decoder cfg α} {f : α → Decoder cfg β} (hm : Steadily m)
    (hf : ∀ a, Steadily (f a)) : Steadily (m >>= f) :=
  Proc.stays_bind steady_preorder hm hf

theorem Steadily.tryCatch {m : Decoder cfg α} {h : Failure → Decoder cfg α} (hm : Steadily m)
    (hh : ∀ e, Steadily (h e)) : Steadily (tryCatch m h) :=
  Proc.stays_tryCatch steady_preorder hm hh

theorem Steadily.ite {c : Prop} [Decidable c] {m m' : Decoder cfg α} (hm : Steadily m)
    (hm' : Steadily m') : Steadily (if c then m else m') :=
  Proc.stays_ite hm hm'

theorem steadily_answered (f : Env → Nat → α) : Steadily (answered f : Decoder cfg α) :=
  fun env w hw => wp_answered ⟨Steady.refl w, fun h => absurd rfl h⟩
    ⟨steady_tock env w, fun _ => idle_tock hw⟩

theorem steadily_sleep : Steadily (sleep : Decoder cfg Unit) :=
  fun env w hw => wp_sleep ⟨Steady.refl w, fun h => absurd rfl h⟩
    ⟨steady_tock env w, fun _ => idle_tock hw⟩

theorem steadily_pauseBefore (n : Nat) : Steadily (pauseBefore n : Decoder cfg Unit) :=
  (steadily_pure _).ite steadily_sleep

theorem steadily_observe {o : Observed cfg.weight} (ho : o.isAnswer = true) :
    Steadily (observe o : Decoder cfg Unit) :=
  fun _ w hw => ⟨steady_log w ho, fun _ => hw⟩

theorem steadily_dateNow : Steadily (dateNow : Decoder cfg Nat) :=
  fun _ w hw => ⟨Steady.refl w, fun _ => hw⟩

theorem steadily_updateMem {f : Memory → Memory}
    (hf : ∀ mem, (f mem).reorgHaltMarkerPersisted = mem.reorgHaltMarkerPersisted)
    (hcache : ∀ mem, CacheUnproven mem → CacheUnproven (f mem)) :
    Steadily (updateMem f : Decoder cfg Unit) :=
  fun _ w hw => ⟨steady_mem w (hf w.mem) (hcache w.mem), fun _ => hw⟩

theorem steadily_watchPark : Steadily (watchPark : Decoder cfg Unit) := by
  intro _ w hw
  refine ⟨?_, fun _ => hw⟩
  exact
    { rows := rfl, hashes := rfl, events := ⟨[], rfl, by simp⟩, log := ⟨[], rfl, by simp⟩
      loop := rfl, sound := fun h => ⟨h.persisted, h.confirmed, h.view, h.reading, h.audited⟩
      confirmed := id, cache := id }

theorem steadily_query (f : Tables cfg.weight → α) : Steadily (query f : Decoder cfg α) :=
  fun env w hw => wp_query ⟨Steady.refl w, fun h => absurd rfl h⟩
    ⟨steady_tock env w, fun _ => idle_tock hw⟩ ⟨steady_tock env w, fun _ => idle_tock hw⟩

theorem steadily_map {β : Type} {m : Decoder cfg α} (g : α → β) (hm : Steadily m) :
    Steadily (g <$> m) :=
  hm.bind (fun a => steadily_pure (g a))

theorem steadily_getBlockHash (height : Int) : Steadily (getBlockHash height : Decoder cfg Hash) := by
  refine (steadily_answered _).bind (fun a => ?_)
  refine (steadily_observe rfl).bind (fun _ => ?_)
  split
  · exact steadily_pure _
  · exact steadily_fail _

theorem steadily_getBlockHeader (hash : Option Hash) :
    Steadily (getBlockHeader hash : Decoder cfg HeaderAnswer) :=
  (steadily_answered _).bind (fun _ => (steadily_observe rfl).bind (fun _ => steadily_pure _))

theorem steadily_getBlockchainInfo : Steadily (getBlockchainInfo : Decoder cfg InfoAnswer) :=
  (steadily_answered _).bind (fun _ => (steadily_observe rfl).bind (fun _ => steadily_pure _))

/-! ## Section 3: Raising a halt is steady -/

/-- What an attempt to write the halt marker comes to. -/
def MarkerAttempted (w : World cfg.weight) (r : Except (Stop Failure) Bool)
    (w' : World cfg.weight) : Prop :=
  Steady w w' ∧ (r ≠ .error .crashed → Idle w') ∧
    (r = .ok true → HaltSound w → ∃ reason, Event.reorgHalt reason ∈ w'.db.events)

theorem steady_insertHalt {w : World weight} (hw : Idle w) (reason : HaltReason) :
    Steady w { w with db := w.db.insertEvent (.reorgHalt reason) } where
  rows      := rfl
  hashes    := rfl
  events    := ⟨[.reorgHalt reason], rfl, by simp⟩
  log       := ⟨[], rfl, by simp⟩
  loop      := rfl
  sound     := by
    intro h
    have hidle : Idle { w with db := w.db.insertEvent (.reorgHalt reason) } := hw
    refine ⟨h.persisted, fun hc => ?_, fun r hr => ?_, fun r hr hread => ?_, ?_⟩
    · obtain ⟨r, hr⟩ := h.confirmed hc
      exact ⟨r, List.mem_cons_of_mem _ hr⟩
    · rw [hidle.view] at hr
      exact hr
    · obtain ⟨reason', hrow⟩ := h.reading r hr hread
      exact ⟨reason', List.mem_cons_of_mem _ hrow⟩
    · have hnot : Event.reorgHaltCleared none ∉ (w.db.insertEvent (.reorgHalt reason)).events := by
        intro hmem
        rcases List.mem_cons.mp hmem with he | he
        · cases he
        · exact h.audited.2 he
      exact ⟨by rw [hidle.view]; exact hnot, hnot⟩
  confirmed := id
  cache     := id

theorem Steady.halted_row {w w' : World weight} (hs : Steady w w')
    (hread : w'.view.isReorgHalted = true) (h : HaltSound w) :
    ∃ reason, Event.reorgHalt reason ∈ w'.db.events :=
  (hs.sound h).row_of_halted hread

theorem wp_markReorgHalted {env : Env} {w : World cfg.weight} (hw : Idle w)
    (reason : HaltReason) :
    (markReorgHalted reason : Decoder cfg Bool).wp env w (MarkerAttempted w) := by
  unfold markReorgHalted
  have hs := steady_tock env w
  have hidle : Idle (w.tock env) := idle_tock hw
  refine Proc.wp_bind.mpr (wp_query ?_ ?_ ?_)
  · exact ⟨Steady.refl w, fun h => absurd rfl h, fun h => by cases h⟩
  · exact ⟨hs, fun _ => hidle, fun h => by cases h⟩
  rw [Proc.continuesWith_ok]
  -- a marker that is there already is not written twice
  by_cases hlive : (w.view.readReorgHaltState.halted &&
      !w.view.readReorgHaltState.unauditedClear) = true
  · rw [if_pos hlive, Proc.wp_pure]
    refine ⟨hs, fun _ => hidle, fun _ hsound => hs.halted_row ?_ hsound⟩
    rw [tock_view]
    exact (Bool.and_eq_true_iff.mp hlive).1
  · rw [if_neg hlive]
    have hs₂ := hs.trans (steady_tock env (w.tock env))
    have hidle₂ : Idle ((w.tock env).tock env) := idle_tock hidle
    refine Proc.wp_bind.mpr (wp_insertEvent hidle ?_ ?_ ?_)
    · exact ⟨hs, fun h => absurd rfl h, fun h => by cases h⟩
    · exact ⟨hs₂, fun _ => hidle₂, fun h => by cases h⟩
    · -- the row is written; what is left is the read-back
      rw [Proc.continuesWith_ok, if_pos rfl]
      have hs₃ := hs₂.trans (steady_insertHalt hidle₂ reason)
      have hidle₃ : Idle { (w.tock env).tock env with
          db := ((w.tock env).tock env).db.insertEvent (.reorgHalt reason) } := hidle₂
      have hs₄ := hs₃.trans (steady_tock env _)
      refine Proc.wp_tryCatch.mpr (wp_query ?_ ?_ ?_)
      · exact ⟨hs₃, fun h => absurd rfl h, fun h => by cases h⟩
      · exact ⟨hs₄, fun _ => idle_tock hidle₃, fun h => by cases h⟩
      · refine ⟨hs₄, fun _ => idle_tock hidle₃, fun hread hsound => hs₄.halted_row ?_ hsound⟩
        rw [tock_view]
        injection hread

theorem wp_attemptHaltMarker {env : Env} {w : World cfg.weight} (hw : Idle w)
    (reason : HaltReason) :
    (attemptHaltMarker reason : Decoder cfg Bool).wp env w (MarkerAttempted w) := by
  refine Proc.wp_guard (wp_markReorgHalted hw reason) (fun a s' h => h) ?_ (fun s' h => h)
    (fun s' h => h)
  rintro e w' ⟨hs, hidle, -⟩
  exact ⟨hs, fun _ => hidle (by simp), fun h => by cases h⟩

theorem MarkerAttempted.after {w w₁ w' : World cfg.weight} {r : Except (Stop Failure) Bool}
    (hs : Steady w w₁) (h : MarkerAttempted w₁ r w') : MarkerAttempted w r w' :=
  ⟨hs.trans h.1, h.2.1, fun hr hsound => h.2.2 hr (hs.sound hsound)⟩

/-- Recording the outcome of an attempt is steady: a durable marker is a row. -/
theorem MarkerAttempted.persisted {w w' : World cfg.weight} {persisted : Bool}
    (h : MarkerAttempted w (.ok persisted) w') :
    Steady w { w' with
      mem := { w'.mem with reorgHaltMarkerPersisted := some persisted }
      haltConfirmed := w'.haltConfirmed || persisted } where
  rows      := h.1.rows
  hashes    := h.1.hashes
  events    := h.1.events
  log       := h.1.log
  loop      := h.1.loop
  sound     := by
    intro hsound
    have hsound' := h.1.sound hsound
    refine ⟨fun hp => ?_, fun hc => ?_, hsound'.view, hsound'.reading, hsound'.audited⟩
    · have hpersisted : persisted = true := by injection hp
      show (w'.haltConfirmed || persisted) = true
      rw [hpersisted, Bool.or_true]
    · rcases Bool.or_eq_true_iff.mp hc with hc | hc
      · exact hsound'.confirmed hc
      · exact h.2.2 (by rw [hc]) hsound
  confirmed := by
    intro hc
    show (w'.haltConfirmed || persisted) = true
    rw [h.1.confirmed hc, Bool.true_or]
  cache     := h.1.cache

/-- What `haltReorg` comes to: a marker it calls durable has been confirmed. -/
theorem wp_haltReorg {env : Env} {w : World cfg.weight} (hw : Idle w) (reason : HaltReason) :
    (haltReorg reason : Decoder cfg Unit).wp env w (fun r w' =>
      Steady w w' ∧ (r ≠ .error .crashed → Idle w') ∧
        (r = .ok () → w'.mem.reorgHaltMarkerPersisted = some true → w'.haltConfirmed = true)) := by
  unfold haltReorg
  rw [Proc.wp_bind, wp_dateNow, Proc.continuesWith_ok]
  -- the health fields first, then at most two attempts at the marker
  have hset : Steadily (updateMem (fun mem => { mem with
      reorgHalted := true, reorgHaltReason := some reason,
      reorgHaltCheckedAt := env.now w.tick }) : Decoder cfg Unit) :=
    steadily_updateMem (fun _ => rfl) (fun _ h => h)
  refine Proc.wp_seq (hset env w hw) ?_
    (fun e w' h => ⟨h.1, fun he => h.2 (by simpa using he), fun he => by cases he⟩)
  rintro _ w₀ ⟨hs₀, hidle₀⟩
  refine Proc.wp_seq (steadily_watchPark env w₀ (hidle₀ (by simp))) ?_
    (fun e w' h => ⟨hs₀.trans h.1, fun he => h.2 (by simpa using he), fun he => by cases he⟩)
  rintro _ w₁ ⟨hs₀₁, hidle₁⟩
  have hs₁ := hs₀.trans hs₀₁
  refine Proc.wp_seq (wp_attemptHaltMarker (hidle₁ (by simp)) reason) ?_
    (fun e w' h => ⟨hs₁.trans h.1, fun he => h.2.1 (by simpa using he), fun he => by cases he⟩)
  intro first w₂ hfirst
  have hfirst' : MarkerAttempted w (.ok first) w₂ := hfirst.after hs₁
  have hsecond : (if first then pure true else attemptHaltMarker reason : Decoder cfg Bool).wp
      env w₂ (MarkerAttempted w) := by
    cases first with
    | true  => exact hfirst'
    | false =>
      refine Proc.wp_mono (wp_attemptHaltMarker (hfirst'.2.1 (by simp)) reason) ?_
      intro r w' h
      exact h.after hfirst'.1
  refine Proc.wp_seq hsecond ?_
    (fun e w' h => ⟨h.1, fun he => h.2.1 (by simpa using he), fun he => by cases he⟩)
  intro persisted w₃ hpersisted
  refine ⟨hpersisted.persisted, fun _ => hpersisted.2.1 (by simp), fun _ hp => ?_⟩
  have hpersisted : persisted = true := by injection hp
  show (w₃.haltConfirmed || persisted) = true
  rw [hpersisted, Bool.or_true]

theorem steadily_haltReorg (reason : HaltReason) :
    Steadily (haltReorg reason : Decoder cfg Unit) := by
  intro env w hw
  refine Proc.wp_mono (wp_haltReorg hw reason) ?_
  rintro r w' ⟨hs, hidle, -⟩
  exact ⟨hs, hidle⟩

/-! ## Section 4: Gathering evidence is steady -/

theorem steadily_raiseSafeDepthHalt (reason : HaltReason) (walk : Walk) :
    Steadily (raiseSafeDepthHalt reason walk : Decoder cfg Walk) := by
  refine (steadily_haltReorg reason).bind (fun _ => steadily_get.bind (fun w => ?_))
  exact (steadily_pure _).ite (steadily_throw _)

theorem steadily_refuseHaltedRollback : Steadily (refuseHaltedRollback : Decoder cfg Unit) := by
  refine steadily_dateNow.bind (fun now => ?_)
  refine Steadily.bind (steadily_updateMem ?_ ?_)
    (fun _ => steadily_watchPark.bind (fun _ => steadily_throw _))
  · exact fun _ => rfl
  · exact fun _ h => h

theorem steadily_countReorgDeletesAboveTip :
    Steadily (countReorgDeletesAboveTip : Decoder cfg Nat) :=
  (steadily_query _).bind (fun _ => steadily_query _)

theorem steadily_attemptPriorDepth (n : Nat) : Steadily (attemptPriorDepth n : Decoder cfg Nat) := by
  induction n with
  | zero => exact steadily_fail _
  | succ n ih =>
    refine steadily_countReorgDeletesAboveTip.tryCatch (fun _ => ?_)
    exact (steadily_pauseBefore n).bind (fun _ => ih)

theorem steadily_assertWithinSafeDepth (lastBlockIndex : Int) (priorDepth : Nat) (walk : Walk) :
    Steadily (assertWithinSafeDepth lastBlockIndex priorDepth walk : Decoder cfg Walk) :=
  (steadily_pure _).ite ((steadily_raiseSafeDepthHalt _ _).ite (steadily_pure _))

theorem steadily_proveReorgedAway (hash : Option Hash) :
    Steadily (proveReorgedAway hash : Decoder cfg ForkProof) :=
  (steadily_getBlockHeader hash).bind (fun _ => steadily_pure _)

theorem steadily_proveForkReorgedAway (hash : Option Hash) (nodeTip : Option Int) :
    Steadily (proveForkReorgedAway hash nodeTip : Decoder cfg ForkProof) := by
  refine steadily_dateNow.bind (fun now => steadily_get.bind (fun w => ?_))
  split
  · exact steadily_pure _
  · refine (steadily_proveReorgedAway hash).bind (fun result => ?_)
    refine Steadily.bind (steadily_updateMem ?_ ?_) (fun _ => steadily_pure _)
    · exact fun _ => rfl
    · exact fun mem _ => cacheUnproven_keepForkProof mem _ _ _ _

theorem steadily_requireReorgProof (blockIndex : Int) (hash : Option Hash) (nodeTip : Option Int) :
    Steadily (requireReorgProof blockIndex hash nodeTip : Decoder cfg Unit) :=
  (steadily_proveForkReorgedAway hash nodeTip).bind
    (fun _ => (steadily_pure _).ite (steadily_throw _))

theorem steadily_raiseAboveTipWait (blockIndex : Int) (hash : Option Hash) (cls : RefusalClass) :
    Steadily (raiseAboveTipWait blockIndex hash cls : Decoder cfg α) :=
  steadily_throw _

theorem steadily_requireAboveTipForkProof (blockIndex : Int) (hash : Option Hash)
    (nodeTip : Int) :
    Steadily (requireAboveTipForkProof blockIndex hash nodeTip : Decoder cfg (Option Hash)) := by
  refine ((steadily_query _).tryCatch (fun _ => steadily_raiseAboveTipWait _ _ _)).bind
    (fun boundary => ?_)
  split
  · exact steadily_raiseAboveTipWait _ _ _
  · refine ((steadily_getBlockHash _).tryCatch (fun _ => steadily_raiseAboveTipWait _ _ _)).bind
      (fun nodeHash => ?_)
    refine (steadily_raiseAboveTipWait _ _ _).ite ?_
    exact (steadily_requireReorgProof _ _ _).bind (fun _ => steadily_pure _)

theorem steadily_refuseOrHaltDeepGap (blockIndex : Int) (hash : Option Hash) (nodeTip : Int)
    (priorDepth : Nat) (walk : Walk) :
    Steadily (refuseOrHaltDeepGap blockIndex hash nodeTip priorDepth walk : Decoder cfg Walk) := by
  refine (steadily_requireAboveTipForkProof _ _ _).bind (fun boundaryHash => ?_)
  exact (steadily_pure _).ite (steadily_raiseSafeDepthHalt _ _)

theorem steadily_readNodeBlockHash (height : Int) :
    Steadily (readNodeBlockHash height : Decoder cfg (Option Hash)) :=
  (steadily_map _ (steadily_getBlockHash height)).tryCatch (fun _ => steadily_pure _)

theorem steadily_verifyChainGenesis : Steadily (verifyChainGenesis : Decoder cfg Bool) := by
  unfold verifyChainGenesis
  split
  · exact steadily_pure _
  · refine ((steadily_map _ (steadily_getBlockHash 0)).tryCatch
      (fun _ => steadily_pure _)).bind (fun reported => ?_)
    split
    · exact steadily_pure _
    · refine (steadily_pure _).ite (steadily_dateNow.bind (fun now => ?_))
      refine Steadily.bind (steadily_updateMem ?_ ?_) (fun _ => steadily_pure _)
      · exact fun _ => rfl
      · exact fun _ h => h

theorem steadily_readReorgTip (nodeTip : Option Int) :
    Steadily (readReorgTip nodeTip : Decoder cfg (Option Int)) := by
  refine steadily_getBlockchainInfo.bind (fun answer => ?_)
  split
  · exact steadily_pure _
  · exact steadily_pure _
  · split
    · exact steadily_pure _
    · refine (steadily_pure _).ite (steadily_verifyChainGenesis.bind (fun foreign => ?_))
      exact (steadily_pure _).ite ((steadily_pure _).ite (steadily_pure _))

theorem steadily_settleNodeReading [DecidableEq α] {readOnce : Decoder cfg (Option α)}
    (hread : Steadily readOnce) (reads : Nat) (previous : α) :
    Steadily (settleNodeReading readOnce reads previous) := by
  induction reads generalizing previous with
  | zero => exact steadily_pure _
  | succ reads ih =>
    refine steadily_sleep.bind (fun _ => hread.bind (fun next => ?_))
    split
    · exact steadily_pure _
    · exact (steadily_pure _).ite (ih _)

theorem steadily_refreshReorgTip (nodeTip : Option Int) :
    Steadily (refreshReorgTip nodeTip : Decoder cfg (Option Int)) := by
  refine (steadily_readReorgTip nodeTip).bind (fun tip => (steadily_pure _).ite ?_)
  split
  · exact steadily_pure _
  · exact (steadily_settleNodeReading (steadily_readReorgTip nodeTip) _ _).bind
      (fun _ => steadily_pure _)

end Calls

end XChainDecoder
