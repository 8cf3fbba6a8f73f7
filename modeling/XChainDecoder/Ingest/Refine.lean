import XChainDecoder.Ingest.Store

/-! # storeBlock computes the draft

    A pass that is not rolled back leaves in the open transaction exactly what
    `Draft.ingestBlock` makes of the tables it started on, with the same counter.
    One that is rolled back leaves no transaction. Neither touches the committed
    tables or the cursors before it commits.

    **Main theorem.** `wp_fillBlock`. -/

namespace XChainDecoder

variable {weight : String → String} {cfg : Config} {env : Env} {w w' : World cfg.weight}
variable {α β : Type}

/-! ## Section 1: Endings of a pass -/

/-- What a pass leaves alone. `K` bounds the positions it may quarantine. -/
structure Frame (K : QuarantineKey → Prop) (w w' : World weight) : Prop where
  db         : w'.db = w.db
  log        : w'.log = w.log
  cursor     : w'.loop.lastProcessedBlockIndex = w.loop.lastProcessedBlockIndex
  batch      : w'.loop.blocksQuantity = w.loop.blocksQuantity
  tip        : w'.mem.blockchainInfoLastBlock = w.mem.blockchainInfoLastBlock
  parked     : w'.mem.reorgHaltParked = w.mem.reorgHaltParked
  quarantine : ∀ key ∈ w'.loop.insertQuarantine, key ∈ w.loop.insertQuarantine ∨ K key

theorem Frame.refl (K : QuarantineKey → Prop) (w : World weight) : Frame K w w :=
  ⟨rfl, rfl, rfl, rfl, rfl, rfl, fun _ h => .inl h⟩

theorem Frame.trans {K : QuarantineKey → Prop} {w w' w'' : World weight} (h : Frame K w w')
    (h' : Frame K w' w'') : Frame K w w'' where
  db         := h'.db.trans h.db
  log        := h'.log.trans h.log
  cursor     := h'.cursor.trans h.cursor
  batch      := h'.batch.trans h.batch
  tip        := h'.tip.trans h.tip
  parked     := h'.parked.trans h.parked
  quarantine := fun key hkey => (h'.quarantine key hkey).elim (h.quarantine key) .inr

theorem Frame.mono {K K' : QuarantineKey → Prop} {w w' : World weight} (h : Frame K w w')
    (hK : ∀ key, K key → K' key) : Frame K' w w' :=
  { h with quarantine := fun key hkey => (h.quarantine key hkey).imp_right (hK key) }

theorem Frame.write {K : QuarantineKey → Prop} {w w' : World weight} (h : Frame K w w')
    (txn : Option (Tables weight)) : Frame K w { w' with txn := txn } :=
  ⟨h.db, h.log, h.cursor, h.batch, h.tip, h.parked, h.quarantine⟩

theorem Frame.setLoop {K : QuarantineKey → Prop} {w w' : World weight} (h : Frame K w w')
    {loop : LoopState}
    (hcursor : loop.lastProcessedBlockIndex = w'.loop.lastProcessedBlockIndex)
    (hbatch : loop.blocksQuantity = w'.loop.blocksQuantity)
    (hskips : ∀ key ∈ loop.insertQuarantine, key ∈ w'.loop.insertQuarantine ∨ K key) :
    Frame K w { w' with loop := loop } where
  db         := h.db
  log        := h.log
  cursor     := hcursor.trans h.cursor
  batch      := hbatch.trans h.batch
  tip        := h.tip
  parked     := h.parked
  quarantine := fun key hkey => (hskips key hkey).elim (h.quarantine key) .inr

theorem tock_mem_tip (env : Env) (w : World weight) :
    (w.tock env).mem.blockchainInfoLastBlock = w.mem.blockchainInfoLastBlock :=
  tock_mem env w Memory.blockchainInfoLastBlock (fun _ => rfl)
    (fun _ _ _ => by unfold Memory.adoptMarker; split <;> rfl)

theorem tock_mem_parked (env : Env) (w : World weight) :
    (w.tock env).mem.reorgHaltParked = w.mem.reorgHaltParked :=
  tock_mem env w Memory.reorgHaltParked (fun _ => rfl)
    (fun _ _ _ => by unfold Memory.adoptMarker; split <;> rfl)

theorem frame_tock (K : QuarantineKey → Prop) (env : Env) (w : World weight) :
    Frame K w (w.tock env) :=
  ⟨tock_db env w, tock_log env w, by rw [tock_loop], by rw [tock_loop], tock_mem_tip env w,
    tock_mem_parked env w, fun key hkey => .inl (tock_loop env w ▸ hkey)⟩

/-- The open transaction and the counter of a pass. -/
structure Carries (t : Tables weight) (index : Int) (q : List QuarantineKey) (w : World weight) :
    Prop where
  txn   : w.txn = some t
  index : w.loop.lastProcessedTxIndex = index
  skips : w.loop.insertQuarantine = q

theorem Carries.tock {t : Tables weight} {index : Int} {q : List QuarantineKey}
    {w : World weight} (h : Carries t index q w) (env : Env) : Carries t index q (w.tock env) :=
  ⟨(tock_txn env w).trans h.txn, by rw [tock_loop]; exact h.index, by rw [tock_loop]; exact h.skips⟩

theorem Carries.view {t : Tables weight} {index : Int} {q : List QuarantineKey}
    {w : World weight} (h : Carries t index q w) : w.view = t := by
  unfold World.view
  rw [h.txn]
  rfl

/-- How a step of a pass ends: as `good` says, or refused (`bad`) with the
    transaction gone. Only a crash leaves it open on an error. -/
def PassPost (K : QuarantineKey → Prop) (w : World weight) (good : α → World weight → Prop)
    (bad : α → Prop) : Except (Stop Failure) α → World weight → Prop
  | .ok a,    w' => Frame K w w' ∧ (good a w' ∨ bad a ∧ w'.txn = none)
  | .error e, w' => Frame K w w' ∧ e ≠ .unfinished ∧ (e ≠ .crashed → w'.txn = none)

section Rules

variable {K : QuarantineKey → Prop} {good : α → World cfg.weight → Prop} {bad : α → Prop}
variable {good' : β → World cfg.weight → Prop} {bad' : β → Prop}

theorem PassPost.ok {a : α} (h : good a w) : PassPost K w good bad (.ok a) w :=
  ⟨Frame.refl K w, .inl h⟩

theorem PassPost.refused {a : α} (h : bad a) (htxn : w.txn = none) :
    PassPost K w good bad (.ok a) w :=
  ⟨Frame.refl K w, .inr ⟨h, htxn⟩⟩

theorem PassPost.crashed : PassPost K w good bad (.error .crashed) w :=
  ⟨Frame.refl K w, nofun, fun h => absurd rfl h⟩

/-- A step seen from an earlier state. -/
theorem PassPost.after {r : Except (Stop Failure) α} {w'' : World cfg.weight}
    (hframe : Frame K w w') (h : PassPost K w' good bad r w'') : PassPost K w good bad r w'' := by
  cases r with
  | ok a    => exact ⟨hframe.trans h.1, h.2⟩
  | error e => exact ⟨hframe.trans h.1, h.2⟩

theorem PassPost.weaken {K' : QuarantineKey → Prop} {good₂ : α → World cfg.weight → Prop}
    {r : Except (Stop Failure) α} (h : PassPost K w good bad r w')
    (hK : ∀ key, K key → K' key) (hgood : ∀ a w', good a w' → good₂ a w') :
    PassPost K' w good₂ bad r w' := by
  cases r with
  | ok a    => exact ⟨h.1.mono hK, h.2.imp_left (hgood a w')⟩
  | error e => exact ⟨h.1.mono hK, h.2⟩

/-- **Sequencing.** The second step starts where the first is good; where the
    first is refused it has to refuse too. -/
theorem wp_passSeq {m : Decoder cfg α} {f : α → Decoder cfg β}
    (hm : m.wp env w (PassPost K w good bad))
    (hgood : ∀ a w₁, good a w₁ → (f a).wp env w₁ (PassPost K w₁ good' bad'))
    (hbad : ∀ a w₁, bad a → w₁.txn = none → (f a).wp env w₁ (PassPost K w₁ good' bad')) :
    (m >>= f).wp env w (PassPost K w good' bad') := by
  refine Proc.wp_seq hm ?_ ?_
  · intro a w₁ h
    obtain ⟨hframe, hend⟩ := h
    rcases hend with hend | ⟨hend, htxn⟩
    · exact Proc.wp_mono (hgood a w₁ hend) (fun _ _ h' => h'.after hframe)
    · exact Proc.wp_mono (hbad a w₁ hend htxn) (fun _ _ h' => h'.after hframe)
  · intro e w₁ h
    exact h

/-- Ending the transaction of a pass that is refused. -/
theorem wp_endPass {a : α} {t : Tables cfg.weight} (htxn : w.txn = some t) (ha : bad a) :
    (do endTransaction; return a : Decoder cfg α).wp env w (PassPost K w good bad) := by
  refine Proc.wp_bind.mpr (wp_endTransaction ?_ ?_ ?_ ?_)
  · exact ⟨Frame.refl K w, nofun, fun h => absurd rfl h⟩
  · intro hnone
    rw [htxn] at hnone
    cases hnone
  · exact ⟨(frame_tock K env w).write none, nofun, fun _ => rfl⟩
  · exact ⟨(frame_tock K env w).write none, .inr ⟨ha, rfl⟩⟩

/-- A call of the pass: a failure refuses, an answer goes on from the next tick. -/
theorem wp_unless {a : α} {m : Decoder cfg α} {fails : Env → Nat → Bool} {t : Tables cfg.weight}
    {index : Int} {q : List QuarantineKey} (h : Carries t index q w) (ha : bad a)
    (hm : Carries t index q (w.tock env) →
      m.wp env (w.tock env) (PassPost K (w.tock env) good bad)) :
    (do
      let failed ← answered fails
      if failed then do
        endTransaction
        return a
      else m : Decoder cfg α).wp env w (PassPost K w good bad) := by
  have hframe : Frame K w (w.tock env) := frame_tock K env w
  refine Proc.wp_bind.mpr (wp_answered ?_ ?_)
  · exact ⟨Frame.refl K w, nofun, fun h => absurd rfl h⟩
  · rw [Proc.continuesWith_ok]
    by_cases hfails : fails env w.tick = true
    · rw [if_pos hfails]
      exact Proc.wp_mono (wp_endPass (h.tock env).txn ha) (fun _ _ h' => h'.after hframe)
    · rw [if_neg hfails]
      exact Proc.wp_mono (hm (h.tock env)) (fun _ _ h' => h'.after hframe)

end Rules

/-! ## Section 2: Statements -/

section Statements

variable {K : QuarantineKey → Prop} {t : Tables cfg.weight} {index : Int} {q : List QuarantineKey}

theorem wp_statement (h : Carries t index q w) (f : Tables cfg.weight → Tables cfg.weight) :
    (statement f : Decoder cfg Bool).wp env w
      (PassPost K w (fun b w' => b = true ∧ Carries (f t) index q w') (fun b => b = false)) := by
  unfold statement
  refine wp_unless h rfl ?_
  intro htock
  rw [Proc.wp_bind, Proc.wp_modify, Proc.continuesWith_ok, Proc.wp_pure,
    World.write_of_some htock.txn]
  exact ⟨(Frame.refl K _).write _, .inl ⟨rfl, rfl, htock.index, htock.skips⟩⟩

theorem wp_keyedStatement (h : Carries t index q w)
    (f : Tables cfg.weight → Option (Tables cfg.weight)) :
    (keyedStatement f : Decoder cfg Bool).wp env w
      (PassPost K w (fun b w' => b = true ∧ ∃ t', f t = some t' ∧ Carries t' index q w')
        (fun b => b = false)) := by
  unfold keyedStatement
  refine wp_unless h rfl ?_
  intro htock
  rw [Proc.wp_bind, Proc.wp_get, Proc.continuesWith_ok, htock.view]
  cases hf : f t with
  | none    => exact wp_endPass htock.txn rfl
  | some t' =>
    dsimp only
    rw [Proc.wp_bind, Proc.wp_modify, Proc.continuesWith_ok, Proc.wp_pure,
      World.write_of_some htock.txn]
    exact ⟨(Frame.refl K _).write _, .inl ⟨rfl, t', rfl, rfl, htock.index, htock.skips⟩⟩

theorem wp_lookup (h : Carries t index q w) (f : Tables cfg.weight → α) :
    (lookup f : Decoder cfg (Option α)).wp env w
      (PassPost K w (fun a w' => a = some (f t) ∧ Carries t index q w') (fun a => a = none)) := by
  unfold lookup
  refine wp_unless h rfl ?_
  intro htock
  rw [Proc.wp_bind, Proc.wp_get, Proc.continuesWith_ok, Proc.wp_pure, htock.view]
  exact .ok ⟨rfl, htock⟩

/-- A write that cannot fail. -/
theorem wp_silentWrite (h : Carries t index q w) (f : Tables cfg.weight → Tables cfg.weight) :
    (modify (World.write f) : Decoder cfg Unit).wp env w
      (PassPost K w (fun _ w' => Carries (f t) index q w') (fun _ => False)) := by
  rw [Proc.wp_modify, World.write_of_some h.txn]
  exact ⟨(Frame.refl K w).write _, .inl ⟨rfl, h.index, h.skips⟩⟩

/-- The pass changes its own loop fields. -/
theorem wp_updateLoop (h : Carries t index q w) {f : LoopState → LoopState} {index' : Int}
    (hcursor : (f w.loop).lastProcessedBlockIndex = w.loop.lastProcessedBlockIndex)
    (hbatch : (f w.loop).blocksQuantity = w.loop.blocksQuantity)
    (hindex : (f w.loop).lastProcessedTxIndex = index')
    (hskips : (f w.loop).insertQuarantine = w.loop.insertQuarantine) :
    (updateLoop f : Decoder cfg Unit).wp env w
      (PassPost K w (fun _ w' => Carries t index' q w') (fun _ => False)) := by
  refine ⟨(Frame.refl K w).setLoop hcursor hbatch ?_, .inl ⟨h.txn, hindex, hskips.trans h.skips⟩⟩
  intro key hkey
  exact .inl (hskips ▸ hkey)

end Statements

/-! ## Section 3: One transaction -/

section Transaction

variable {K : QuarantineKey → Prop} {t : Tables cfg.weight} {index : Int} {q : List QuarantineKey}
variable {rules : Rules} {head : BlockHead}

theorem wp_storeOutputs (os : List Output) :
    ∀ {w : World cfg.weight} {t : Tables cfg.weight}, Carries t index q w →
    (storeOutputs os : Decoder cfg Bool).wp env w
      (PassPost K w (fun b w' => b = true ∧ ∃ t', Tables.insertOutputs index os t = some t' ∧
        Carries t' index q w') (fun b => b = false)) := by
  induction os with
  | nil => exact fun h => .ok ⟨rfl, _, rfl, h⟩
  | cons o os ih =>
    intro w t h
    unfold storeOutputs
    rw [Proc.wp_bind, Proc.wp_get, Proc.continuesWith_ok, h.index]
    refine wp_passSeq (wp_keyedStatement h _) ?_ ?_
    · rintro b w₁ ⟨rfl, t₁, ht₁, h₁⟩
      refine Proc.wp_mono (ih h₁) (fun _ _ h' => h'.weaken (fun _ => id) ?_)
      rintro b w₂ ⟨rfl, t₂, ht₂, h₂⟩
      refine ⟨rfl, t₂, ?_, h₂⟩
      show (t.insertOutput index o).bind _ = some t₂
      rw [ht₁]
      exact ht₂
    · rintro b w₁ rfl htxn
      exact .refused rfl htxn

theorem wp_resolveOracleFeeAddresses (source : Option String) (commands : List String) :
    ∀ {w : World cfg.weight}, Carries t index q w →
    (resolveOracleFeeAddresses rules head source commands : Decoder cfg _).wp env w
      (PassPost K w (fun a w' => a = some (commands.flatMap (fun command =>
        t.oracleFeeAddresses source (rules.oracleRequest command head.time))) ∧
        Carries t index q w') (fun a => a = none)) := by
  induction commands with
  | nil => exact fun h => .ok ⟨rfl, h⟩
  | cons command commands ih =>
    intro w h
    unfold resolveOracleFeeAddresses
    refine wp_passSeq (wp_lookup h _) ?_ ?_
    · rintro a w₁ ⟨rfl, h₁⟩
      refine wp_passSeq (ih h₁) ?_ ?_
      · rintro a w₂ ⟨rfl, h₂⟩
        exact .ok ⟨rfl, h₂⟩
      · rintro a w₂ rfl htxn
        exact .refused rfl htxn
    · rintro a w₁ rfl htxn
      exact .refused rfl htxn

theorem wp_capturePaymentOutputs (h : Carries t index q w) (r : ParseResult)
    (commands : List String) :
    (capturePaymentOutputs rules head r commands : Decoder cfg Bool).wp env w
      (PassPost K w (fun b w' => b = true ∧ ∃ t',
        Tables.insertOutputs index (Draft.payments rules head r commands t) t = some t' ∧
        Carries t' index q w') (fun b => b = false)) := by
  unfold capturePaymentOutputs
  refine wp_passSeq (wp_resolveOracleFeeAddresses r.source commands h) ?_ ?_
  · rintro a w₁ ⟨rfl, h₁⟩
    exact wp_storeOutputs _ h₁
  · rintro a w₁ rfl htxn
    exact .refused rfl htxn

theorem wp_registerDispensers (cs : List DispenserCreate) :
    ∀ {w : World cfg.weight} {t : Tables cfg.weight}, Carries t index q w →
    (registerDispensers cs : Decoder cfg Bool).wp env w
      (PassPost K w (fun b w' => b = true ∧
        Carries (cs.foldl (fun t c => t.registerDispenser index c) t) index q w')
        (fun b => b = false)) := by
  induction cs with
  | nil => exact fun h => .ok ⟨rfl, h⟩
  | cons c cs ih =>
    intro w t h
    unfold registerDispensers
    rw [Proc.wp_bind, Proc.wp_get, Proc.continuesWith_ok, h.index]
    refine wp_passSeq (wp_statement h _) ?_ ?_
    · rintro b w₁ ⟨rfl, h₁⟩
      exact ih h₁
    · rintro b w₁ rfl htxn
      exact .refused rfl htxn

theorem wp_extendEditedDispensers (edits : List (String × Int)) :
    ∀ {w : World cfg.weight} {t : Tables cfg.weight}, Carries t index q w →
    (extendEditedDispensers head.blockIndex edits : Decoder cfg Bool).wp env w
      (PassPost K w (fun b w' => b = true ∧
        Carries (edits.foldl (fun t edit => t.extendEditedDispenser head.blockIndex edit) t)
          index q w') (fun b => b = false)) := by
  induction edits with
  | nil => exact fun h => .ok ⟨rfl, h⟩
  | cons edit edits ih =>
    intro w t h
    unfold extendEditedDispensers
    refine wp_passSeq (wp_statement h _) ?_ ?_
    · rintro b w₁ ⟨rfl, h₁⟩
      refine wp_passSeq (wp_statement h₁ _) ?_ ?_
      · rintro b w₂ ⟨rfl, h₂⟩
        exact ih h₂
      · rintro b w₂ rfl htxn
        exact .refused rfl htxn
    · rintro b w₁ rfl htxn
      exact .refused rfl htxn

/-- The row, where the database accepts its content; a rejected position may be
    quarantined. -/
theorem wp_insertTransactionRow (h : Carries t index q w) (position : Nat) (hash : Hash)
    (r : ParseResult) (stored : StoredRecord)
    (hK : rules.rejectsRow hash r.source r.destination stored.data stored.rawData = true →
      K (head.key position)) :
    (insertTransactionRow rules head position hash r stored : Decoder cfg Bool).wp env w
      (PassPost K w (fun b w' => b = true ∧
        rules.rejectsRow hash r.source r.destination stored.data stored.rawData = false ∧
        ∃ t', t.insertTransaction (newTransaction head index hash r stored) = some t' ∧
          Carries t' index q w') (fun b => b = false)) := by
  unfold insertTransactionRow
  refine wp_unless h rfl ?_
  intro htock
  by_cases hrej : rules.rejectsRow hash r.source r.destination stored.data stored.rawData = true
  · rw [if_pos hrej]
    refine Proc.wp_bind.mpr (wp_endTransaction ?_ ?_ ?_ ?_)
    · exact ⟨Frame.refl K _, nofun, fun hc => absurd rfl hc⟩
    · intro hnone
      rw [htock.txn] at hnone
      cases hnone
    · exact ⟨(frame_tock K env _).write none, nofun, fun _ => rfl⟩
    · rw [Proc.continuesWith_ok, Proc.wp_bind]
      refine ⟨((frame_tock K env _).write none).setLoop rfl rfl ?_, .inr ⟨rfl, rfl⟩⟩
      -- the one place where a position enters the quarantine
      intro key hkey
      dsimp only at hkey
      split at hkey
      · rcases List.mem_cons.mp hkey with rfl | hkey
        · exact .inr (hK hrej)
        · exact .inl hkey
      · exact .inl hkey
  · rw [if_neg hrej, Proc.wp_bind, Proc.wp_get, Proc.continuesWith_ok, Proc.wp_bind, Proc.wp_get,
      Proc.continuesWith_ok, htock.view, htock.index]
    cases hins : t.insertTransaction (newTransaction head index hash r stored) with
    | none    => exact wp_endPass htock.txn rfl
    | some t' =>
      dsimp only
      rw [Proc.wp_bind, Proc.wp_modify, Proc.continuesWith_ok, Proc.wp_pure,
        World.write_of_some htock.txn]
      exact ⟨(Frame.refl K _).write _,
        .inl ⟨rfl, by simpa using hrej, t', rfl, rfl, htock.index, htock.skips⟩⟩

theorem wp_persistTransaction {d : Draft cfg.weight} (h : Carries d.tables d.lastTxIndex q w)
    (position : Nat) (hash : Hash) (r : ParseResult) (stored : StoredRecord)
    (hK : rules.rejectsRow hash r.source r.destination stored.data stored.rawData = true →
      K (head.key position)) :
    (persistTransaction rules head position hash r stored d.openAddresses : Decoder cfg _).wp env w
      (PassPost K w (fun a w' =>
        rules.rejectsRow hash r.source r.destination stored.data stored.rawData = false ∧
        ∃ d', d.persistTransaction rules head hash r stored = some d' ∧
          a = some d'.openAddresses ∧ Carries d'.tables d'.lastTxIndex q w')
        (fun a => a = none)) := by
  unfold persistTransaction
  -- statement after statement; one that is refused ends the pass
  refine wp_passSeq (wp_insertTransactionRow h position hash r stored hK) ?_ ?_
  swap
  · rintro b w₁ rfl htxn
    exact .refused rfl htxn
  rintro b w₁ ⟨rfl, hrej, t₁, hrow, h₁⟩
  refine wp_passSeq (wp_storeOutputs r.dispenseOutputs h₁) ?_ ?_
  swap
  · rintro b w₂ rfl htxn
    exact .refused rfl htxn
  rintro b w₂ ⟨rfl, t₂, hdispense, h₂⟩
  refine wp_passSeq (wp_capturePaymentOutputs h₂ r _) ?_ ?_
  swap
  · rintro b w₃ rfl htxn
    exact .refused rfl htxn
  rintro b w₃ ⟨rfl, t₃, hpayment, h₃⟩
  refine wp_passSeq (wp_lookup h₃ _) ?_ ?_
  swap
  · rintro a w₄ rfl htxn
    exact .refused rfl htxn
  rintro a w₄ ⟨rfl, h₄⟩
  refine wp_passSeq (wp_silentWrite h₄ _) ?_ (fun _ _ hf => hf.elim)
  intro _ w₅ h₅
  refine wp_passSeq (wp_registerDispensers _ h₅) ?_ ?_
  swap
  · rintro b w₆ rfl htxn
    exact .refused rfl htxn
  rintro b w₆ ⟨rfl, h₆⟩
  refine wp_passSeq (wp_extendEditedDispensers _ h₆) ?_ ?_
  swap
  · rintro b w₇ rfl htxn
    exact .refused rfl htxn
  rintro b w₇ ⟨rfl, h₇⟩
  refine .ok ⟨hrej, ⟨_, d.lastTxIndex, _⟩, ?_, rfl, h₇⟩
  unfold Draft.persistTransaction
  simp only [hrow, hdispense, hpayment, Option.bind_eq_bind, Option.bind_some, Option.pure_def]
  rfl

theorem wp_handleParseFailure (h : Carries t index q w) (position : Nat) (hash : Option Hash)
    (error : String) :
    (handleParseFailure head position hash error : Decoder cfg Bool).wp env w
      (PassPost K w (fun b w' => b = true ∧
        Carries (t.insertEvent (head.parseError position hash error)) index q w')
        (fun b => b = false)) := by
  unfold handleParseFailure
  rw [Proc.wp_bind, Proc.wp_get, Proc.continuesWith_ok]
  by_cases hknown : head.key position ∈ w.loop.parseQuarantine
  · rw [if_pos hknown]
    exact wp_statement h _
  · rw [if_neg hknown, Proc.wp_bind, Proc.wp_get, Proc.continuesWith_ok]
    refine wp_passSeq (wp_updateLoop h rfl rfl h.index rfl) ?_ (fun _ _ hf => hf.elim)
    intro _ w₁ h₁
    by_cases hretry : attemptsOf w.loop.txParseRetryCounts (head.key position) ≤
        TX_PARSE_MAX_RETRIES
    · rw [if_pos hretry]
      exact wp_endPass h₁.txn rfl
    · rw [if_neg hretry]
      refine wp_passSeq (wp_statement h₁ _) ?_ ?_
      · rintro b w₂ ⟨rfl, h₂⟩
        refine wp_passSeq (wp_updateLoop h₂ rfl rfl h₂.index rfl) ?_ (fun _ _ hf => hf.elim)
        intro _ w₃ h₃
        exact .ok ⟨rfl, h₃⟩
      · rintro b w₂ rfl htxn
        exact .refused rfl htxn

/-- A position whose row the database would reject. -/
def Draft.rejects (rules : Rules) (head : BlockHead) (tx : RawTransaction) (d : Draft weight) :
    Prop :=
  ∃ hash r, tx.id = some hash ∧
    rules.parseTransaction tx (· ∈ d.openAddresses) head.blockIndex = .result r ∧
    hasStorableContent r = true ∧ (buildStoredActionRecord rules r).skip = false ∧
    rules.rejectsRow hash r.source r.destination (buildStoredActionRecord rules r).data
      (buildStoredActionRecord rules r).rawData = true

theorem wp_storeParseResult {d : Draft cfg.weight} (h : Carries d.tables d.lastTxIndex q w)
    (position : Nat) (hash : Hash) (r : ParseResult)
    (hK : hasStorableContent r = true → (buildStoredActionRecord rules r).skip = false →
      rules.rejectsRow hash r.source r.destination (buildStoredActionRecord rules r).data
        (buildStoredActionRecord rules r).rawData = true → K (head.key position)) :
    (storeParseResult rules head position hash r d.openAddresses : Decoder cfg _).wp env w
      (PassPost K w (fun a w' => ∃ d', d.storeResult rules head hash r = some d' ∧
        a = some d'.openAddresses ∧ Carries d'.tables d'.lastTxIndex q w') (fun a => a = none)) := by
  unfold storeParseResult Draft.storeResult
  by_cases hcontent : hasStorableContent r = true
  · rw [if_pos hcontent, if_pos hcontent]
    refine wp_passSeq (wp_updateLoop h (f := fun loop => { loop with
      lastProcessedTxIndex := loop.lastProcessedTxIndex + 1 }) rfl rfl (congrArg (· + 1) h.index)
      rfl) ?_ (fun _ _ hf => hf.elim)
    intro _ w₁ h₁
    by_cases hskip : (buildStoredActionRecord rules r).skip = true
    · rw [if_pos hskip, if_pos hskip]
      exact .ok ⟨_, rfl, rfl, h₁⟩
    · rw [if_neg hskip, if_neg hskip]
      refine Proc.wp_mono (wp_persistTransaction (d := { d with lastTxIndex := d.lastTxIndex + 1 })
        h₁ position hash r _ (hK hcontent (by simpa using hskip))) ?_
      intro e w₂ h₂
      refine h₂.weaken (fun _ => id) ?_
      rintro a w₃ ⟨hrej, d', hd', rfl, h₃⟩
      refine ⟨d', ?_, rfl, h₃⟩
      rw [if_neg (by simp [hrej])]
      exact hd'
  · rw [if_neg hcontent, if_neg hcontent]
    exact .ok ⟨d, rfl, rfl, h⟩

theorem wp_parseLookupsAnswer (h : Carries t index q w) :
    (parseLookupsAnswer : Decoder cfg Bool).wp env w
      (PassPost K w (fun b w' => b = true ∧ Carries t index q w') (fun b => b = false)) := by
  unfold parseLookupsAnswer
  refine wp_unless h rfl ?_
  intro h₁
  refine wp_unless h₁ rfl ?_
  intro h₂
  exact .ok ⟨rfl, h₂⟩

theorem wp_ingestTransaction {d : Draft cfg.weight} (h : Carries d.tables d.lastTxIndex q w)
    (position : Nat) (tx : RawTransaction)
    (hK : head.key position ∉ q → d.rejects rules head tx → K (head.key position)) :
    (ingestTransaction rules head position tx d.openAddresses : Decoder cfg _).wp env w
      (PassPost K w (fun a w' => ∃ d', d.ingestTransaction rules head
          (head.key position ∈ q) position tx = some d' ∧
        a = some d'.openAddresses ∧ Carries d'.tables d'.lastTxIndex q w') (fun a => a = none)) := by
  unfold ingestTransaction Draft.ingestTransaction
  rw [Proc.wp_bind, Proc.wp_get, Proc.continuesWith_ok, h.skips]
  by_cases hskip : head.key position ∈ q
  · rw [if_pos hskip, if_pos (by simpa using hskip)]
    refine wp_passSeq (wp_statement h _) ?_ ?_
    · rintro b w₁ ⟨rfl, h₁⟩
      exact .ok ⟨_, rfl, rfl, h₁⟩
    · rintro b w₁ rfl htxn
      exact .refused rfl htxn
  · rw [if_neg hskip, if_neg (by simpa using hskip)]
    cases hid : tx.id with
    | none =>
      refine wp_passSeq (wp_handleParseFailure h position none (rules.idError tx)) ?_ ?_
      · rintro b w₁ ⟨rfl, h₁⟩
        exact .ok ⟨_, rfl, rfl, h₁⟩
      · rintro b w₁ rfl htxn
        exact .refused rfl htxn
    | some hash =>
      dsimp only
      refine wp_passSeq (wp_parseLookupsAnswer h) ?_ ?_
      swap
      · rintro b w₁ rfl htxn
        exact .refused rfl htxn
      rintro b w₁ ⟨rfl, h₁⟩
      rw [if_pos rfl]
      cases hparse : rules.parseTransaction tx (· ∈ d.openAddresses) head.blockIndex with
      | nothing => exact .ok ⟨d, rfl, rfl, h₁⟩
      -- the key is recorded first, in its own statement
      | throws error exposed =>
        refine wp_passSeq (wp_silentWrite h₁ _) ?_ (fun _ _ hf => hf.elim)
        intro _ w₂ h₂
        refine wp_passSeq (wp_handleParseFailure h₂ position (some hash) error) ?_ ?_
        · rintro b w₃ ⟨rfl, h₃⟩
          exact .ok ⟨_, rfl, rfl, h₃⟩
        · rintro b w₃ rfl htxn
          exact .refused rfl htxn
      | result r =>
        refine wp_passSeq (wp_silentWrite h₁ _) ?_ (fun _ _ hf => hf.elim)
        intro _ w₂ h₂
        refine wp_storeParseResult (d := d.write (Tables.exposePubkey · r.source r.sourcePubkey))
          h₂ position hash r ?_
        intro hcontent hstored hrej
        exact hK hskip ⟨hash, r, hid, hparse, hcontent, hstored, hrej⟩

end Transaction

/-! ## Section 4: One block -/

section Block

variable {t : Tables cfg.weight} {index : Int} {q : List QuarantineKey} {rules : Rules}

/-- The positions a pass over `txs` may quarantine: those whose row is rejected
    when the pass gets to them. -/
def Rejected (rules : Rules) (head : BlockHead) (q : List QuarantineKey) (position : Nat)
    (txs : List RawTransaction) (d : Draft weight) (key : QuarantineKey) : Prop :=
  ∃ before tx after d', txs = before ++ tx :: after ∧
    key = head.key (position + before.length) ∧ key ∉ q ∧
    d.ingestTransactions rules head (fun p => head.key p ∈ q) position before = some d' ∧
    d'.rejects rules head tx

theorem Rejected.cons {head : BlockHead} {position : Nat} {tx : RawTransaction}
    {txs : List RawTransaction} {d d' : Draft weight} {key : QuarantineKey}
    (hd : d.ingestTransaction rules head (head.key position ∈ q) position tx = some d')
    (h : Rejected rules head q (position + 1) txs d' key) :
    Rejected rules head q position (tx :: txs) d key := by
  obtain ⟨before, tx', after, d'', rfl, hkey, hq, hrun, hrej⟩ := h
  refine ⟨tx :: before, tx', after, d'', rfl, ?_, hq, ?_, hrej⟩
  · rw [hkey, List.length_cons]
    congr 1
    omega
  · unfold Draft.ingestTransactions
    rw [hd]
    exact hrun

theorem wp_ingestTransactions {head : BlockHead} (txs : List RawTransaction) :
    ∀ {w : World cfg.weight} {d : Draft cfg.weight} (position : Nat),
    Carries d.tables d.lastTxIndex q w →
    (ingestTransactions rules head position txs d.openAddresses : Decoder cfg Bool).wp env w
      (PassPost (Rejected rules head q position txs d) w (fun b w' => b = true ∧ ∃ d',
        d.ingestTransactions rules head (fun p => head.key p ∈ q) position txs = some d' ∧
        Carries d'.tables d'.lastTxIndex q w') (fun b => b = false)) := by
  induction txs with
  | nil => exact fun position h => .ok ⟨rfl, _, rfl, h⟩
  | cons tx txs ih =>
    intro w d position h
    unfold ingestTransactions
    refine wp_passSeq (wp_ingestTransaction h position tx ?_) ?_ ?_
    · intro hq hrej
      exact ⟨[], tx, txs, d, rfl, rfl, hq, rfl, hrej⟩
    · rintro a w₁ ⟨d₁, hd₁, rfl, h₁⟩
      refine Proc.wp_mono (ih (position + 1) h₁) (fun _ _ h' => h'.weaken (fun key => ?_) ?_)
      · exact Rejected.cons hd₁
      · rintro b w₂ ⟨rfl, d₂, hd₂, h₂⟩
        refine ⟨rfl, d₂, ?_, h₂⟩
        unfold Draft.ingestTransactions
        rw [hd₁]
        exact hd₂
    · rintro a w₁ rfl htxn
      exact .refused rfl htxn

/-- The block times below, or no answer where a read failed. -/
theorem wp_fetchBlockTimes (K : QuarantineKey → Prop) (span : Nat) :
    ∀ {w : World cfg.weight} (height : Int), Carries t index q w →
    (fetchBlockTimes span height : Decoder cfg _).wp env w (fun r w' => Frame K w w' ∧
      match r with
      | .ok none         => Carries t index q w'
      | .ok (some times) => times = t.blockTimesBelow span height ∧ Carries t index q w'
      | .error e         => e = .crashed) := by
  induction span with
  | zero => exact fun height h => ⟨Frame.refl K _, rfl, h⟩
  | succ span ih =>
    intro w height h
    unfold fetchBlockTimes Tables.blockTimesBelow
    by_cases hlow : height < 0
    · rw [if_pos hlow, if_pos hlow]
      exact ⟨Frame.refl K w, rfl, h⟩
    · rw [if_neg hlow, if_neg hlow]
      have htock := h.tock env
      have hframe := frame_tock K env w
      refine Proc.wp_bind.mpr (wp_tryQuery ⟨Frame.refl K w, rfl⟩ ?_ ?_)
      · exact ⟨hframe, htock⟩
      · rw [Proc.continuesWith_ok, h.view]
        cases t.getBlockByIndex height with
        | none   => exact ⟨hframe, rfl, htock⟩
        | some b =>
          refine Proc.wp_seq (ih (height - 1) htock) ?_ ?_
          · rintro (_ | rest) w₁ ⟨hframe₁, h₁⟩
            · exact ⟨hframe.trans hframe₁, h₁⟩
            · exact ⟨hframe.trans hframe₁, by rw [h₁.1], h₁.2⟩
          · rintro e w₁ ⟨hframe₁, h₁⟩
            exact ⟨hframe.trans hframe₁, h₁⟩

theorem wp_resolveBlockTimeContext (K : QuarantineKey → Prop) (h : Carries t index q w)
    (blockIndex : Int) (block : RawBlock) :
    (resolveBlockTimeContext rules blockIndex block : Decoder cfg _).wp env w
      (PassPost K w (fun a w' => a = some (Draft.timesOf rules blockIndex block t) ∧
        Carries t index q w') (fun a => a = none)) := by
  unfold resolveBlockTimeContext
  refine Proc.wp_seq (wp_fetchBlockTimes K _ _ h) ?_ ?_
  · rintro (_ | times) w₁ ⟨hframe, h₁⟩
    · refine Proc.wp_mono (wp_endPass (K := K) h₁.txn ?_) (fun _ _ h' => h'.after hframe)
      rfl
    · exact ⟨hframe, .inl ⟨by rw [h₁.1]; rfl, h₁.2⟩⟩
  · rintro e w₁ ⟨hframe, rfl⟩
    exact ⟨hframe, nofun, fun hc => absurd rfl hc⟩

/-- The head of a block over the tables its pass starts on. -/
def headOf (rules : Rules) (blockIndex : Int) (hash : Hash) (block : RawBlock)
    (t : Tables weight) : BlockHead :=
  ⟨blockIndex, hash, (Draft.timesOf rules blockIndex block t).protocolBlockTime⟩

/-- The positions a pass of a block may quarantine. -/
def RejectedIn (rules : Rules) (q : List QuarantineKey) (blockIndex : Int) (hash : Hash)
    (block : RawBlock) (t : Tables weight) (index : Int) (key : QuarantineKey) : Prop :=
  ∃ d, Draft.openBlock rules blockIndex hash block t index = some d ∧
    Rejected rules (headOf rules blockIndex hash block t) q 0 block.transactions d key

/-- **Main theorem.** What a pass that is not refused leaves in the open
    transaction is the draft of its block. -/
theorem wp_fillBlock (h : Carries t index q w) (blockIndex : Int) (hash : Hash)
    (block : RawBlock) :
    (fillBlock rules blockIndex hash block : Decoder cfg (Option Int)).wp env w
      (PassPost (RejectedIn rules q blockIndex hash block t index) w
        (fun a w' => ∃ d', Draft.ingestBlock rules
            (fun p => (headOf rules blockIndex hash block t).key p ∈ q) blockIndex hash block t
            index = some d' ∧
          a = some (headOf rules blockIndex hash block t).time ∧
          Carries d'.tables d'.lastTxIndex q w') (fun a => a = none)) := by
  unfold fillBlock
  refine wp_passSeq (wp_resolveBlockTimeContext _ h blockIndex block) ?_ ?_
  swap
  · rintro a w₁ rfl htxn
    exact .refused rfl htxn
  rintro a w₁ ⟨rfl, h₁⟩
  refine wp_passSeq (wp_keyedStatement h₁ _) ?_ ?_
  swap
  · rintro b w₂ rfl htxn
    exact .refused rfl htxn
  rintro b w₂ ⟨rfl, t₂, hinsert, h₂⟩
  -- the expiry of a network that expires at the start
  generalize htime : (Draft.timesOf rules blockIndex block t).protocolBlockTime = time at *
  have hexpire : ((if gateActive rules.expiryRealignActivation time then pure true
      else statement (Tables.deleteOpenDispensers · blockIndex time)) : Decoder cfg Bool).wp env w₂
      (PassPost (RejectedIn rules q blockIndex hash block t index) w₂
        (fun b w' => b = true ∧ Carries (if gateActive rules.expiryRealignActivation time then t₂
          else t₂.deleteOpenDispensers blockIndex time) index q w') (fun b => b = false)) := by
    by_cases hend : gateActive rules.expiryRealignActivation time = true
    · rw [if_pos hend, if_pos hend]
      exact .ok ⟨rfl, h₂⟩
    · rw [if_neg hend, if_neg hend]
      exact wp_statement h₂ _
  refine wp_passSeq hexpire ?_ ?_
  swap
  · rintro b w₃ rfl htxn
    exact .refused rfl htxn
  rintro b w₃ ⟨rfl, h₃⟩
  refine wp_passSeq (wp_lookup h₃ _) ?_ ?_
  swap
  · rintro a w₄ rfl htxn
    exact .refused rfl htxn
  rintro a w₄ ⟨rfl, h₄⟩
  -- the draft before the first transaction
  generalize hstart : (if gateActive rules.expiryRealignActivation time then t₂
    else t₂.deleteOpenDispensers blockIndex time) = t₃ at *
  obtain ⟨d, hopen, htables, hindex, haddresses⟩ :
      ∃ d : Draft cfg.weight, Draft.openBlock rules blockIndex hash block t index = some d ∧
        d.tables = t₃ ∧ d.lastTxIndex = index ∧
        d.openAddresses = d.tables.getAllOpenDispenserAddresses (cancelGraceFloor rules time
          (Draft.timesOf rules blockIndex block t).parentProtocolTime) := by
    refine ⟨⟨t₃, index, t₃.getAllOpenDispenserAddresses _⟩, ?_, rfl, rfl, rfl⟩
    unfold Draft.openBlock
    simp only [hinsert, htime, hstart, Option.bind_eq_bind, Option.bind_some, Option.pure_def]
  rw [← htables, ← hindex] at h₄
  rw [← htables, ← haddresses]
  have hhead : headOf rules blockIndex hash block t = ⟨blockIndex, hash, time⟩ := by
    unfold headOf
    rw [htime]
  refine wp_passSeq (Proc.wp_mono (wp_ingestTransactions block.transactions 0 h₄)
    (fun _ _ h' => h'.weaken (fun key hkey => ⟨d, hopen, hhead ▸ hkey⟩) (fun _ _ => id))) ?_ ?_
  swap
  · rintro b w₅ rfl htxn
    exact .refused rfl htxn
  rintro b w₅ ⟨rfl, d', hrun, h₅⟩
  have hclose : ((if gateActive rules.expiryRealignActivation time then
      statement (Tables.deleteOpenDispensers · blockIndex time) else pure true) :
      Decoder cfg Bool).wp env w₅
      (PassPost (RejectedIn rules q blockIndex hash block t index) w₅
        (fun b w' => b = true ∧ Carries (d'.closeBlock rules blockIndex time).tables
          (d'.closeBlock rules blockIndex time).lastTxIndex q w') (fun b => b = false)) := by
    unfold Draft.closeBlock
    by_cases hend : gateActive rules.expiryRealignActivation time = true
    · rw [if_pos hend, if_pos hend]
      exact wp_statement h₅ _
    · rw [if_neg hend, if_neg hend]
      exact .ok ⟨rfl, h₅⟩
  refine wp_passSeq hclose ?_ ?_
  swap
  · rintro b w₆ rfl htxn
    exact .refused rfl htxn
  rintro b w₆ ⟨rfl, h₆⟩
  refine .ok ⟨_, ?_, by rw [hhead]; rfl, h₆⟩
  unfold Draft.ingestBlock
  rw [hhead]
  simp only [hopen, htime, hrun, Option.bind_eq_bind, Option.bind_some, Option.pure_def]

end Block

end XChainDecoder
