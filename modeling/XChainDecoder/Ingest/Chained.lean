import XChainDecoder.Ingest.Pass
import XChainDecoder.Ingest.Store

/-! # The pass keeps the stored chain

    Every image of the tables, the committed one and that of the open
    transaction, is a stored chain (`Tables.Chained`) wherever the pass may be
    killed. The argument does not ask whether a transaction is open: a statement
    keeps the chain in whichever image it writes to.

    `Writing n i` is what the statements of block `n` rely on: the block's row is
    there, and so is the row of the transaction `i` in hand, if there is one. -/

namespace XChainDecoder

open Proc Tables

variable {cfg : Config} {α : Type} {rules : Rules} {n : Int} {i : Option Int}

/-! ## Section 1: The images -/

/-- Every image of the tables is a stored chain. -/
structure Intact (cfg : Config) (w : World cfg.weight) : Prop where
  db  : Chained cfg.startBlockIndex w.db
  txn : ∀ t, w.txn = some t → Chained cfg.startBlockIndex t

theorem Intact.view {w : World cfg.weight} (h : Intact cfg w) :
    Chained cfg.startBlockIndex w.view := by
  unfold World.view
  cases htxn : w.txn with
  | none   => exact h.db
  | some t => exact h.txn t htxn

/-- What does not touch the images keeps them. -/
theorem Intact.congr {w w' : World cfg.weight} (h : Intact cfg w) (hdb : w'.db = w.db)
    (htxn : w'.txn = w.txn ∨ w'.txn = none) : Intact cfg w' where
  db  := hdb ▸ h.db
  txn := by
    intro t ht
    rcases htxn with htxn | htxn
    · exact h.txn t (htxn ▸ ht)
    · rw [htxn] at ht
      cases ht

theorem Intact.tock {w : World cfg.weight} (h : Intact cfg w) (env : Env) :
    Intact cfg (w.tock env) :=
  h.congr (tock_db env w) (.inl (tock_txn env w))

theorem view_write (f : Tables cfg.weight → Tables cfg.weight) (w : World cfg.weight) :
    (w.write f).view = f w.view := by
  cases htxn : w.txn with
  | none   => rw [World.write_of_none htxn]; simp [World.view, htxn]
  | some t => rw [World.write_of_some htxn]; simp [World.view, htxn]

/-- A write keeps the images when it keeps the one it goes to. -/
theorem Intact.write {w : World cfg.weight} (h : Intact cfg w)
    {f : Tables cfg.weight → Tables cfg.weight}
    (hf : Chained cfg.startBlockIndex (f w.view)) : Intact cfg (w.write f) := by
  cases htxn : w.txn with
  | none =>
    rw [World.write_of_none htxn]
    refine ⟨?_, fun t ht => ?_⟩
    · simpa [World.view, htxn] using hf
    · have ht : w.txn = some t := ht
      rw [htxn] at ht
      cases ht
  | some t =>
    rw [World.write_of_some htxn]
    refine ⟨h.db, fun t' ht' => ?_⟩
    have ht' : some (f t) = some t' := ht'
    rw [Option.some.injEq] at ht'
    rw [← ht']
    simpa [World.view, htxn] using hf

/-- The images a process keeps; of a killed one only the committed tables are left. -/
def images (cfg : Config) : Keep (World cfg.weight) where
  live    := Intact cfg
  durable := fun w => Chained cfg.startBlockIndex w.db

/-! ## Section 2: Triples for the calls -/

section Calls

variable {P : World cfg.weight → Prop}

/-- A fact about the images and the loop outlives an await. -/
def Settled (P : World cfg.weight → Prop) : Prop := ∀ env w, P w → P (w.tock env)

theorem maintains_answered (hP : Settled P) (f : Env → Nat → α) :
    Maintains (images cfg) P (answered f : Decoder cfg α) (fun _ => P) := by
  intro env w hI hw
  refine wp_answered ⟨hI.db, nofun⟩ ⟨hI.tock env, fun _ _ => hP env w hw⟩

theorem maintains_sleep (hP : Settled P) :
    Maintains (images cfg) P (sleep : Decoder cfg Unit) (fun _ => P) := by
  intro env w hI hw
  refine wp_sleep ⟨hI.db, nofun⟩ ⟨hI.tock env, fun _ _ => hP env w hw⟩

theorem maintains_query (hP : Settled P) (f : Tables cfg.weight → α) :
    Maintains (images cfg) P (query f : Decoder cfg α) (fun a w => P w ∧ a = f w.view) := by
  intro env w hI hw
  refine wp_query ⟨hI.db, nofun⟩ ⟨hI.tock env, nofun⟩ ⟨hI.tock env, fun a ha => ?_⟩
  cases ha
  exact ⟨hP env w hw, by rw [tock_view]⟩

theorem maintains_endTransaction :
    Maintains (images cfg) P (endTransaction : Decoder cfg Unit) (fun _ w => w.txn = none) := by
  intro env w hI _
  have hgone : Intact cfg { w.tock env with txn := none } :=
    (hI.tock env).congr rfl (.inr rfl)
  refine wp_endTransaction ⟨hI.db, nofun⟩ (fun hnone => ⟨hI, fun _ _ => hnone⟩) ⟨hgone, nofun⟩ ?_
  exact ⟨hgone, fun _ _ => rfl⟩

theorem maintains_beginTransaction :
    Maintains (images cfg) P (beginTransaction : Decoder cfg Unit) (fun _ _ => True) := by
  intro env w hI _
  cases htxn : w.txn with
  | none =>
    refine wp_beginTransaction htxn ⟨hI.db, nofun⟩ ⟨hI.tock env, nofun⟩ ⟨?_, fun _ _ => trivial⟩
    refine ⟨(hI.tock env).db, fun t ht => ?_⟩
    cases ht
    exact (hI.tock env).db
  | some t =>
    unfold beginTransaction
    rw [wp_bind, wp_get, continuesWith_ok, htxn]
    exact ⟨hI, nofun⟩

theorem maintains_commitTransaction :
    Maintains (images cfg) P (commitTransaction : Decoder cfg Bool) (fun _ _ => True) := by
  intro env w hI _
  cases htxn : w.txn with
  | none =>
    unfold commitTransaction
    rw [wp_bind, wp_get, continuesWith_ok, htxn]
    exact ⟨hI, fun _ _ => trivial⟩
  | some t =>
    refine wp_commitTransaction htxn ⟨hI.db, nofun⟩ ⟨?_, fun _ _ => trivial⟩ ⟨?_, fun _ _ => trivial⟩
    · exact (hI.tock env).congr rfl (.inr rfl)
    · exact ⟨hI.txn t htxn, nofun⟩

theorem maintains_updateLoop {f : LoopState → LoopState} {Q : World cfg.weight → Prop}
    (h : ∀ w, P w → Q { w with loop := f w.loop }) :
    Maintains (images cfg) P (updateLoop f : Decoder cfg Unit) (fun _ => Q) :=
  maintains_modify (fun w hI hw => ⟨hI.congr rfl (.inl rfl), h w hw⟩)

theorem maintains_observe {o : Observed cfg.weight} {Q : World cfg.weight → Prop}
    (h : ∀ w, P w → Q { w with log := o :: w.log }) :
    Maintains (images cfg) P (observe o : Decoder cfg Unit) (fun _ => Q) :=
  maintains_modify (fun w hI hw => ⟨hI.congr rfl (.inl rfl), h w hw⟩)

end Calls

/-! ## Section 3: Statements -/

/-- The block's row is there, and so is the row of the transaction in hand. -/
structure Writing (n : Int) (i : Option Int) (w : World cfg.weight) : Prop where
  block : n ∈ w.view.heights
  index : ∀ index, i = some index → w.loop.lastProcessedTxIndex = index
  tx    : ∀ index, i = some index → index ∈ w.view.toChainRows.txIndexesOf n

theorem settled_writing : @Settled cfg (Writing n i) := by
  intro env w h
  exact ⟨by rw [tock_view]; exact h.block, by rw [tock_loop]; exact h.index,
    by rw [tock_view]; exact h.tx⟩

/-- What every statement of block `n` does: it writes no block, forgets no hash
    and no transaction of the block, and keeps the rows well formed. -/
structure Tables.Extends (n : Int) (t t' : Tables cfg.weight) : Prop where
  blocks : t'.blocks = t.blocks
  hashes : t.indexTransactions.rows <+: t'.indexTransactions.rows
  txs    : ∀ i ∈ t.toChainRows.txIndexesOf n, i ∈ t'.toChainRows.txIndexesOf n
  wf     : t.toChainRows.Wf → n ∈ t.heights → t'.toChainRows.Wf

theorem Tables.Changes.extends {t t' : Tables cfg.weight} (h : Changes n t t') :
    Extends n t t' := by
  exact ⟨h.blocks_eq, h.grows.transactions, fun i hi => h.mem_txIndexesOf hi, h.wf⟩

theorem Writing.write {w : World cfg.weight} (h : Writing n i w) (hI : Intact cfg w)
    {f : Tables cfg.weight → Tables cfg.weight} (hf : Extends n w.view (f w.view)) :
    Intact cfg (w.write f) ∧ Writing n i (w.write f) := by
  have hview := hI.view
  have hchained := hview.of_prefix (hf.wf hview.wf h.block) hf.blocks hf.hashes
  refine ⟨hI.write hchained, ?_⟩
  have hloop : (w.write f).loop = w.loop := by
    cases htxn : w.txn with
    | none   => rw [World.write_of_none htxn]
    | some t => rw [World.write_of_some htxn]
  refine ⟨?_, by rw [hloop]; exact h.index, ?_⟩
  · rw [view_write, ChainRows.heights_eq_of_blocks_eq hf.blocks]
    exact h.block
  · rw [view_write]
    exact fun index hi => hf.txs index (h.tx index hi)

/-- Where a call fails the pass stops writing. -/
theorem maintains_unless {P : World cfg.weight → Prop} {Q : α → World cfg.weight → Prop} {a : α}
    {m : Decoder cfg α} {fails : Env → Nat → Bool} (hP : Settled P) (ha : ∀ w, Q a w)
    (hm : Maintains (images cfg) P m Q) :
    Maintains (images cfg) P (do
      let failed ← answered fails
      if failed then do
        endTransaction
        return a
      else m : Decoder cfg α) Q := by
  refine maintains_bind (maintains_answered hP fails) (fun failed => maintains_ite (fun _ => ?_) ?_)
  · exact maintains_bind maintains_endTransaction (fun _ => maintains_pure (fun w _ => ha w))
  · exact fun _ => hm

/-- Ending the transaction of a pass that is refused. -/
theorem maintains_refuse {P : World cfg.weight → Prop} {Q : α → World cfg.weight → Prop} {a : α}
    (ha : ∀ w, Q a w) :
    Maintains (images cfg) P (do endTransaction; return a : Decoder cfg α) Q :=
  maintains_bind maintains_endTransaction (fun _ => maintains_pure (fun w _ => ha w))

theorem maintains_statement {f : Tables cfg.weight → Tables cfg.weight}
    (hf : ∀ t : Tables cfg.weight, (∀ index, i = some index → index ∈ t.toChainRows.txIndexesOf n) →
      Extends n t (f t)) :
    Maintains (images cfg) (Writing n i) (statement f : Decoder cfg Bool)
      (fun b w => b = true → Writing n i w) := by
  unfold statement
  refine maintains_unless settled_writing (fun _ h => by cases h) ?_
  refine maintains_bind (R := fun _ => Writing n i) (maintains_modify ?_)
    (fun _ => maintains_pure (fun w h _ => h))
  exact fun w hI h => h.write hI (hf w.view h.tx)

theorem maintains_keyedStatement {f : Tables cfg.weight → Option (Tables cfg.weight)}
    (hf : ∀ t t' : Tables cfg.weight,
      (∀ index, i = some index → index ∈ t.toChainRows.txIndexesOf n) → f t = some t' →
      Extends n t t') :
    Maintains (images cfg) (Writing n i) (keyedStatement f : Decoder cfg Bool)
      (fun b w => b = true → Writing n i w) := by
  unfold keyedStatement
  refine maintains_unless settled_writing (fun _ h => by cases h) (maintains_get_bind ?_)
  intro w hI hw
  cases hft : f w.view with
  | none   => exact maintains_refuse (fun _ h => by cases h)
  | some t =>
    refine maintains_bind (R := fun _ => Writing n i) (maintains_modify ?_)
      (fun _ => maintains_pure (fun w h _ => h))
    rintro w' hI' ⟨h', rfl⟩
    exact h'.write hI' (hf w'.view t h'.tx hft)

theorem maintains_lookup (f : Tables cfg.weight → α) :
    Maintains (images cfg) (Writing n i) (lookup f : Decoder cfg (Option α))
      (fun a w => ∀ v, a = some v → Writing n i w ∧ v = f w.view) := by
  unfold lookup
  refine maintains_unless settled_writing (fun _ v h => by cases h) (maintains_get_bind ?_)
  intro w hI hw
  refine maintains_pure ?_
  rintro w' ⟨h', rfl⟩ v hv
  cases hv
  exact ⟨h', rfl⟩

/-- A write that cannot fail. -/
theorem maintains_write {f : Tables cfg.weight → Tables cfg.weight}
    (hf : ∀ t : Tables cfg.weight, Extends n t (f t)) :
    Maintains (images cfg) (Writing n i) (modify (World.write f) : Decoder cfg Unit)
      (fun _ => Writing n i) :=
  maintains_modify (fun w hI h => h.write hI (hf w.view))

/-- Changing the loop's own fields, the counter apart. -/
theorem maintains_setLoop {f : LoopState → LoopState}
    (hf : ∀ loop, (f loop).lastProcessedTxIndex = loop.lastProcessedTxIndex) :
    Maintains (images cfg) (Writing n i) (updateLoop f : Decoder cfg Unit)
      (fun _ => Writing n i) :=
  maintains_updateLoop (fun _ h => ⟨h.block, fun index hi => (hf _).trans (h.index index hi), h.tx⟩)

/-! ## Section 4: One transaction -/

section Transaction

variable {head : BlockHead}

theorem maintains_parseErrorEvent (position : Nat) (hash : Option Hash) (error : String) :
    Maintains (images cfg) (Writing n i)
      (insertParseErrorEvent head position hash error : Decoder cfg Bool)
      (fun b w => b = true → Writing n i w) :=
  maintains_statement (fun _ _ => (changes_insertEvent position hash error).extends)

theorem maintains_handleParseFailure (position : Nat) (hash : Option Hash) (error : String) :
    Maintains (images cfg) (Writing n i)
      (handleParseFailure head position hash error : Decoder cfg Bool)
      (fun b w => b = true → Writing n i w) := by
  refine maintains_get_bind (fun w _ _ => ?_)
  refine Maintains.weaken (P := Writing n i) ?_ (fun _ _ h => h.1) (fun _ _ h => h)
  refine maintains_ite (fun _ => maintains_parseErrorEvent position hash error) (fun _ => ?_)
  refine maintains_get_bind (fun w _ _ => ?_)
  refine Maintains.weaken (P := Writing n i) ?_ (fun _ _ h => h.1) (fun _ _ h => h)
  refine maintains_bind (maintains_setLoop (fun _ => rfl)) (fun _ => ?_)
  refine maintains_ite (fun _ => maintains_refuse (fun _ h => by cases h)) (fun _ => ?_)
  refine maintains_bind (maintains_parseErrorEvent position hash error) (fun recorded => ?_)
  refine maintains_ite (fun hrecorded => ?_) (fun _ => maintains_pure (fun _ _ h => by cases h))
  refine Maintains.weaken (P := Writing n i) ?_ (fun _ _ h => h hrecorded) (fun _ _ h => h)
  exact maintains_bind (maintains_setLoop (fun _ => rfl))
    (fun _ => maintains_pure (fun _ h _ => h))

/-- The row of the transaction in hand; from here on its index is in use. -/
theorem maintains_insertTransactionRow (hn : head.blockIndex = n) (position : Nat) (hash : Hash)
    (r : ParseResult) (stored : StoredRecord) :
    Maintains (images cfg) (Writing n none)
      (insertTransactionRow rules head position hash r stored : Decoder cfg Bool)
      (fun b w => b = true → Writing n (some w.loop.lastProcessedTxIndex) w) := by
  refine maintains_bind (maintains_answered settled_writing _) (fun fails => ?_)
  refine maintains_ite (fun _ => maintains_refuse (fun _ h => by cases h)) (fun _ => ?_)
  refine maintains_ite (fun _ => ?_) (fun _ => maintains_get_bind (fun w _ _ => ?_))
  · refine maintains_bind maintains_endTransaction (fun _ => ?_)
    refine maintains_bind (R := fun _ _ => True) (maintains_updateLoop (fun _ _ => trivial)) ?_
    exact fun _ => maintains_pure (fun _ _ h => by cases h)
  refine maintains_get_bind (fun w' _ hw' => ?_)
  obtain ⟨⟨hw, rfl⟩, hw'⟩ : (Writing n none w' ∧ w' = w) ∧ True := ⟨hw', trivial⟩
  cases hins : w'.view.insertTransaction
      (newTransaction head w'.loop.lastProcessedTxIndex hash r stored) with
  | none   => exact maintains_refuse (fun _ h => by cases h)
  | some t =>
    obtain ⟨hchanges, htx⟩ := changes_insertTransaction (n := n) hn hins
    refine maintains_bind (R := fun _ w => Writing n (some w.loop.lastProcessedTxIndex) w)
      (maintains_modify ?_) (fun _ => maintains_pure (fun _ h _ => h))
    rintro w hI ⟨⟨hwriting, rfl⟩, heq⟩
    obtain ⟨hintact, hblock⟩ := hwriting.write hI (f := fun _ => t) hchanges.extends
    refine ⟨hintact, hblock.block, fun index h => by cases h; rfl, ?_⟩
    intro index hindex
    have hloop : (w.write (fun _ => t)).loop = w.loop := by
      cases htxn : w.txn with
      | none   => rw [World.write_of_none htxn]
      | some t => rw [World.write_of_some htxn]
    rw [view_write]
    rw [hloop, Option.some.injEq] at hindex
    rw [← hindex]
    exact htx

section Row

variable {index : Int}

/-- The index in hand, as a statement reads it. -/
theorem maintains_withIndex {f : Int → Decoder cfg α} {Q : α → World cfg.weight → Prop}
    (hf : Maintains (images cfg) (Writing n (some index)) (f index) Q) :
    Maintains (images cfg) (Writing n (some index))
      (do f (← get).loop.lastProcessedTxIndex : Decoder cfg α) Q := by
  refine maintains_get_bind (fun w _ hw => ?_)
  rw [hw.index index rfl]
  exact hf.weaken (fun _ _ h => h.1) (fun _ _ h => h)

theorem maintains_storeOutputs (os : List Output) :
    Maintains (images cfg) (Writing n (some index)) (storeOutputs os : Decoder cfg Bool)
      (fun b w => b = true → Writing n (some index) w) := by
  induction os with
  | nil => exact maintains_pure (fun _ h _ => h)
  | cons o os ih =>
    apply maintains_withIndex (f := fun index => do
      let stored ← keyedStatement (fun t => t.insertOutput index o)
      if stored then storeOutputs os else return false)
    refine maintains_bind (maintains_keyedStatement ?_) (fun stored => ?_)
    · exact fun t t' htx h => (changes_insertOutput (htx index rfl) h).extends
    · refine maintains_ite (fun hstored => ?_) (fun _ => maintains_pure (fun _ _ h => by cases h))
      exact ih.weaken (fun _ _ h => h hstored) (fun _ _ h => h)

theorem maintains_resolveOracleFeeAddresses (source : Option String) (commands : List String) :
    Maintains (images cfg) (Writing n i)
      (resolveOracleFeeAddresses rules head source commands : Decoder cfg _)
      (fun a w => ∀ v, a = some v → Writing n i w) := by
  induction commands with
  | nil => exact maintains_pure (fun _ h _ _ => h)
  | cons command commands ih =>
    refine maintains_bind (maintains_lookup _) (fun a => ?_)
    cases a with
    | none           => exact maintains_pure (fun _ _ _ h => by cases h)
    | some addresses =>
      refine maintains_bind (ih.weaken (fun _ _ h => (h addresses rfl).1) (fun _ _ h => h)) ?_
      intro rest
      cases rest with
      | none      => exact maintains_pure (fun _ _ _ h => by cases h)
      | some rest => exact maintains_pure (fun _ h _ _ => h rest rfl)

theorem maintains_capturePaymentOutputs (r : ParseResult) (commands : List String) :
    Maintains (images cfg) (Writing n (some index))
      (capturePaymentOutputs rules head r commands : Decoder cfg Bool)
      (fun b w => b = true → Writing n (some index) w) := by
  refine maintains_bind (maintains_resolveOracleFeeAddresses r.source commands) (fun a => ?_)
  cases a with
  | none         => exact maintains_pure (fun _ _ h => by cases h)
  | some oracles =>
    exact (maintains_storeOutputs _).weaken (fun _ _ h => h oracles rfl) (fun _ _ h => h)

theorem maintains_registerDispensers (cs : List DispenserCreate) :
    Maintains (images cfg) (Writing n (some index)) (registerDispensers cs : Decoder cfg Bool)
      (fun b w => b = true → Writing n (some index) w) := by
  induction cs with
  | nil => exact maintains_pure (fun _ h _ => h)
  | cons c cs ih =>
    apply maintains_withIndex (f := fun index => do
      let registered ← statement (Tables.registerDispenser index c)
      if registered then registerDispensers cs else return false)
    refine maintains_bind (maintains_statement ?_) (fun registered => ?_)
    · exact fun t htx => (changes_insertDispenser (htx index rfl)).extends
    · refine maintains_ite (fun h => ?_) (fun _ => maintains_pure (fun _ _ h => by cases h))
      exact ih.weaken (fun _ _ h' => h' h) (fun _ _ h => h)

/-- The undo rows of an extend are written before it, each a statement. -/
theorem maintains_extendEditedDispensers (edits : List (String × Int)) :
    Maintains (images cfg) (Writing n i) (extendEditedDispensers n edits : Decoder cfg Bool)
      (fun b w => b = true → Writing n i w) := by
  induction edits with
  | nil => exact maintains_pure (fun _ h _ => h)
  | cons edit edits ih =>
    refine maintains_bind (maintains_statement ?_) (fun recorded => ?_)
    · exact fun t _ => ⟨rfl, List.prefix_rfl, fun _ hi => hi,
        fun hwf hn => hwf.recordUndo hn _⟩
    refine maintains_ite (fun hrecorded => ?_) (fun _ => maintains_pure (fun _ _ h => by cases h))
    refine Maintains.weaken (P := Writing n i) ?_ (fun _ _ h => h hrecorded) (fun _ _ h => h)
    refine maintains_bind (maintains_statement ?_) (fun extended => ?_)
    · exact fun t _ => ⟨rfl, List.prefix_rfl, fun _ hi => hi, fun hwf _ => hwf.extend _ _⟩
    refine maintains_ite (fun h => ?_) (fun _ => maintains_pure (fun _ _ h => by cases h))
    exact ih.weaken (fun _ _ h' => h' h) (fun _ _ h => h)

end Row

theorem maintains_persistTransaction (hn : head.blockIndex = n) (position : Nat) (hash : Hash)
    (r : ParseResult) (stored : StoredRecord) (openAddresses : List String) :
    Maintains (images cfg) (Writing n none)
      (persistTransaction rules head position hash r stored openAddresses : Decoder cfg _)
      (fun a w => ∀ v, a = some v → Writing n none w) := by
  subst hn
  have hstop : ∀ P : World cfg.weight → Prop, Maintains (images cfg) P
      (pure none : Decoder cfg (Option (List String)))
      (fun a w => ∀ v, a = some v → Writing head.blockIndex none w) :=
    fun P => maintains_pure (fun _ _ _ h => by cases h)
  refine maintains_bind (maintains_insertTransactionRow rfl position hash r stored) (fun b => ?_)
  refine maintains_ite (fun hb => ?_) (fun _ => hstop _)
  -- the index of the row just written, fixed from here on
  intro env w hI hw
  obtain ⟨index, hindex⟩ : ∃ index, w.loop.lastProcessedTxIndex = index := ⟨_, rfl⟩
  have hw : Writing head.blockIndex (some index) w := hindex ▸ hw hb
  revert env w
  suffices h : Maintains (images cfg) (Writing head.blockIndex (some index)) _ _ from
    fun env w hI _ _ hw => h env w hI hw
  refine maintains_bind (maintains_storeOutputs r.dispenseOutputs) (fun b => ?_)
  refine maintains_ite (fun hb => ?_) (fun _ => hstop _)
  refine Maintains.weaken (P := Writing head.blockIndex (some index)) ?_ (fun _ _ h => h hb)
    (fun _ _ h => h)
  refine maintains_bind (maintains_capturePaymentOutputs r _) (fun b => ?_)
  refine maintains_ite (fun hb => ?_) (fun _ => hstop _)
  refine Maintains.weaken (P := Writing head.blockIndex (some index)) ?_ (fun _ _ h => h hb)
    (fun _ _ h => h)
  refine maintains_bind (maintains_lookup _) (fun keyed => ?_)
  cases keyed with
  | none       => exact hstop _
  | some keyed =>
    refine maintains_bind (R := fun _ => Writing head.blockIndex (some index))
      (maintains_modify ?_) (fun _ => ?_)
    · intro w hI h
      obtain ⟨hwriting, hkeyed⟩ := h keyed rfl
      refine hwriting.write hI (f := fun _ => keyed.2) ?_
      rw [hkeyed]
      exact (changes_collapseDispenserRegistrations _ _).extends
    refine maintains_bind (maintains_registerDispensers keyed.1) (fun b => ?_)
    refine maintains_ite (fun hb => ?_) (fun _ => hstop _)
    refine Maintains.weaken (P := Writing head.blockIndex (some index)) ?_ (fun _ _ h => h hb)
      (fun _ _ h => h)
    refine maintains_bind (maintains_extendEditedDispensers _) (fun b => ?_)
    refine maintains_ite (fun hb => maintains_pure ?_) (fun _ => hstop _)
    exact fun w h _ _ => ⟨(h hb).block, nofun, nofun⟩

theorem maintains_storeParseResult (hn : head.blockIndex = n) (position : Nat) (hash : Hash)
    (r : ParseResult) (openAddresses : List String) :
    Maintains (images cfg) (Writing n none)
      (storeParseResult rules head position hash r openAddresses : Decoder cfg _)
      (fun a w => ∀ v, a = some v → Writing n none w) := by
  refine maintains_ite (fun _ => ?_) (fun _ => maintains_pure (fun _ h _ _ => h))
  refine maintains_bind (R := fun _ => Writing n none) (maintains_updateLoop ?_) (fun _ => ?_)
  · exact fun w h => ⟨h.block, nofun, nofun⟩
  · refine maintains_ite (fun _ => maintains_pure (fun _ h _ _ => h)) (fun _ => ?_)
    exact maintains_persistTransaction hn position hash r _ openAddresses

theorem maintains_parseLookupsAnswer :
    Maintains (images cfg) (Writing n i) (parseLookupsAnswer : Decoder cfg Bool)
      (fun b w => b = true → Writing n i w) := by
  refine maintains_unless settled_writing (fun _ h => by cases h) ?_
  refine maintains_unless settled_writing (fun _ h => by cases h) ?_
  exact maintains_pure (fun _ h _ => h)

/-- A skip that was recorded leaves the capture set as it is. -/
theorem maintains_skipped {m : Decoder cfg Bool} {P : World cfg.weight → Prop}
    (hm : Maintains (images cfg) P m (fun b w => b = true → Writing n none w))
    (openAddresses : List String) :
    Maintains (images cfg) P (do
      let skipped ← m
      return if skipped then some openAddresses else none : Decoder cfg (Option (List String)))
      (fun a w => ∀ v, a = some v → Writing n none w) := by
  refine maintains_bind hm (fun skipped => maintains_pure (fun w h v hv => h ?_))
  cases skipped with
  | true  => rfl
  | false => cases hv

theorem maintains_ingestTransaction (hn : head.blockIndex = n) (position : Nat)
    (tx : RawTransaction) (openAddresses : List String) :
    Maintains (images cfg) (Writing n none)
      (ingestTransaction rules head position tx openAddresses : Decoder cfg _)
      (fun a w => ∀ v, a = some v → Writing n none w) := by
  refine maintains_get_bind (fun w _ _ => ?_)
  refine Maintains.weaken (P := Writing n none) ?_ (fun _ _ h => h.1) (fun _ _ h => h)
  refine maintains_ite (fun _ => ?_) (fun _ => ?_)
  · exact maintains_skipped (maintains_parseErrorEvent position tx.id _) openAddresses
  cases tx.id with
  | none => exact maintains_skipped (maintains_handleParseFailure position none _) openAddresses
  | some hash =>
    refine maintains_bind maintains_parseLookupsAnswer (fun answered => ?_)
    refine maintains_ite (fun hanswered => ?_) (fun _ => maintains_pure (fun _ _ _ h => by cases h))
    refine Maintains.weaken (P := Writing n none) ?_ (fun _ _ h => h hanswered) (fun _ _ h => h)
    cases rules.parseTransaction tx (· ∈ openAddresses) head.blockIndex with
    | nothing => exact maintains_pure (fun _ h _ _ => h)
    | throws error exposed =>
      refine maintains_bind (maintains_write (fun _ => (changes_exposePubkey _ _).extends)) ?_
      exact fun _ =>
        maintains_skipped (maintains_handleParseFailure position (some hash) error) openAddresses
    | result r =>
      refine maintains_bind (maintains_write (fun _ => (changes_exposePubkey _ _).extends)) ?_
      exact fun _ => maintains_storeParseResult hn position hash r openAddresses

end Transaction

/-! ## Section 5: One block -/

theorem maintains_ingestTransactions {head : BlockHead} (hn : head.blockIndex = n)
    (txs : List RawTransaction) :
    ∀ (position : Nat) (openAddresses : List String),
    Maintains (images cfg) (Writing n none)
      (ingestTransactions rules head position txs openAddresses : Decoder cfg Bool)
      (fun b w => b = true → Writing n none w) := by
  induction txs with
  | nil => exact fun _ _ => maintains_pure (fun _ h _ => h)
  | cons tx txs ih =>
    intro position openAddresses
    refine maintains_bind (maintains_ingestTransaction hn position tx openAddresses) (fun a => ?_)
    cases a with
    | none      => exact maintains_pure (fun _ _ h => by cases h)
    | some next => exact (ih (position + 1) next).weaken (fun _ _ h => h next rfl) (fun _ _ h => h)

/-- The next block extends the stored chain it is inserted into. -/
structure Extending (n : Int) (prev : Hash) (w : World cfg.weight) : Prop where
  start_le : cfg.startBlockIndex ≤ n
  below    : cfg.startBlockIndex < n → w.view.hashAt (n - 1) = some prev

theorem settled_extending {prev : Hash} : @Settled cfg (Extending n prev) := by
  intro env w h
  exact ⟨h.start_le, by rw [tock_view]; exact h.below⟩

theorem maintains_fetchBlockTimes {P : World cfg.weight → Prop} (hP : Settled P) (span : Nat) :
    ∀ height, Maintains (images cfg) P (fetchBlockTimes span height : Decoder cfg _)
      (fun _ => P) := by
  induction span with
  | zero => exact fun _ => maintains_pure (fun _ h => h)
  | succ span ih =>
    intro height
    refine maintains_ite (fun _ => maintains_pure (fun _ h => h)) (fun _ => ?_)
    refine maintains_bind (R := fun _ => P) ?_ (fun read => ?_)
    · intro env w hI hw
      exact wp_tryQuery ⟨hI.db, nofun⟩ ⟨hI.tock env, fun _ _ => hP env w hw⟩
        ⟨hI.tock env, fun _ _ => hP env w hw⟩
    match read with
    | none          => exact maintains_pure (fun _ h => h)
    | some none     => exact maintains_pure (fun _ h => h)
    | some (some b) =>
      refine maintains_bind (ih (height - 1)) (fun rest => ?_)
      cases rest with
      | none      => exact maintains_pure (fun _ h => h)
      | some rest => exact maintains_pure (fun _ h => h)

theorem maintains_resolveBlockTimeContext {P : World cfg.weight → Prop} (hP : Settled P)
    (block : RawBlock) :
    Maintains (images cfg) P (resolveBlockTimeContext rules n block : Decoder cfg _)
      (fun a w => ∀ times, a = some times → P w) := by
  refine maintains_bind (maintains_fetchBlockTimes hP _ _) (fun a => ?_)
  cases a with
  | none       => exact maintains_refuse (fun _ _ h => by cases h)
  | some times => exact maintains_pure (fun _ h _ _ => h)

/-- The expiry at one end of the block. -/
theorem maintains_expire {c : Prop} [Decidable c] (time : Int) :
    Maintains (images cfg) (Writing n none)
      (if c then pure true else statement (Tables.deleteOpenDispensers · n time) :
        Decoder cfg Bool) (fun b w => b = true → Writing n none w) :=
  maintains_ite (fun _ => maintains_pure (fun _ h _ => h))
    (fun _ => maintains_statement (fun _ _ => (changes_deleteOpenDispensers time).extends))

/-- **A pass keeps the stored chain**, wherever it stops. -/
theorem maintains_fillBlock (hash : Hash) (block : RawBlock) :
    Maintains (images cfg) (Extending n block.prevHash)
      (fillBlock rules n hash block : Decoder cfg (Option Int)) (fun _ _ => True) := by
  refine maintains_bind (maintains_resolveBlockTimeContext settled_extending block) (fun a => ?_)
  cases a with
  | none       => exact maintains_pure (fun _ _ => trivial)
  | some times =>
    refine maintains_bind (R := fun b w => b = true → Writing n none w) ?_ (fun inserted => ?_)
    · -- the one statement that writes a block
      refine Maintains.weaken (P := Extending n block.prevHash) ?_ (fun _ _ h => h times rfl)
        (fun _ _ h => h)
      unfold keyedStatement
      refine maintains_unless settled_extending (fun _ h => by cases h) (maintains_get_bind ?_)
      intro w hI hw
      dsimp only
      cases hins : w.view.insertBlock n times.rawBlockTime hash block.prevHash with
      | none   => exact maintains_refuse (fun _ h => by cases h)
      | some t =>
        obtain ⟨hchained, hmem⟩ := hI.view.insertBlock cfg.start_nonneg hins hw.start_le hw.below
        refine maintains_bind (R := fun _ => Writing n none) (maintains_modify ?_)
          (fun _ => maintains_pure (fun _ h _ => h))
        rintro w' hI' ⟨-, rfl⟩
        refine ⟨hI'.write hchained, ?_, nofun, nofun⟩
        rw [view_write]
        exact hmem
    refine maintains_ite (fun hinserted => ?_) (fun _ => maintains_pure (fun _ _ => trivial))
    refine Maintains.weaken (P := Writing n none) ?_ (fun _ _ h => h hinserted) (fun _ _ h => h)
    refine maintains_bind (maintains_expire times.protocolBlockTime) (fun expired => ?_)
    refine maintains_ite (fun hexpired => ?_) (fun _ => maintains_pure (fun _ _ => trivial))
    refine Maintains.weaken (P := Writing n none) ?_ (fun _ _ h => h hexpired) (fun _ _ h => h)
    refine maintains_bind (maintains_lookup _) (fun addresses => ?_)
    cases addresses with
    | none           => exact maintains_pure (fun _ _ => trivial)
    | some addresses =>
      -- the transactions write the rows of this block only
      refine maintains_bind ((maintains_ingestTransactions rfl _ 0 addresses).weaken
        (fun _ _ h => (h addresses rfl).1) (fun _ _ h => h)) (fun done => ?_)
      refine maintains_ite (fun hdone => ?_) (fun _ => maintains_pure (fun _ _ => trivial))
      refine Maintains.weaken (P := Writing n none) ?_ (fun _ _ h => h hdone) (fun _ _ h => h)
      refine maintains_bind (R := fun _ _ => True) ?_
        (fun closed => maintains_pure (fun _ _ => trivial))
      refine maintains_ite (fun _ => ?_) (fun _ => maintains_pure (fun _ _ => trivial))
      refine (maintains_statement ?_).weaken (fun _ _ h => h) (fun _ _ _ => trivial)
      exact fun _ _ => (changes_deleteOpenDispensers _).extends

/-! ## Section 6: The commit -/

theorem settled_true : @Settled cfg (fun _ => True) := fun _ _ _ => trivial

/-- The cursor is not below the start height. -/
def CursorLow (cfg : Config) (w : World cfg.weight) : Prop :=
  cfg.startBlockIndex - 1 ≤ w.loop.lastProcessedBlockIndex

theorem settled_cursorLow : Settled (CursorLow cfg) := by
  intro env w h
  show _ ≤ (w.tock env).loop.lastProcessedBlockIndex
  rw [tock_loop]
  exact h

/-- Re-deriving the cursors puts them at the start height or above. -/
theorem maintains_deriveCursors :
    Maintains (images cfg) (fun _ => True) (deriveCursors : Decoder cfg Unit)
      (fun _ => CursorLow cfg) := by
  refine maintains_bind (maintains_query settled_true _) (fun last => ?_)
  refine maintains_bind (R := fun _ => CursorLow cfg) (maintains_modify ?_) (fun _ => ?_)
  · exact fun w hI _ => ⟨hI.congr rfl (.inl rfl), Int.le_max_right _ _⟩
  refine maintains_bind (maintains_query settled_cursorLow _) (fun lastTx => ?_)
  exact maintains_updateLoop (fun _ h => h.1)

theorem Intact.purge {w : World cfg.weight} (h : Intact cfg w) {c : ChainRows} (hwf : c.Wf)
    (hblocks : c.blocks = w.db.blocks) {w' : World cfg.weight}
    (hdb : w'.db = { w.db with toChainRows := c }) (htxn : w'.txn = w.txn) : Intact cfg w' where
  db  := by rw [hdb]; exact h.db.of_prefix hwf hblocks List.prefix_rfl
  txn := htxn ▸ h.txn

theorem maintains_purgeExpiredAfterCommit {P : World cfg.weight → Prop} (hP : Settled P)
    (hPdb : ∀ w w' : World cfg.weight, w'.loop = w.loop → P w → P w') (blockIndex time : Int) :
    Maintains (images cfg) P (purgeExpiredAfterCommit rules blockIndex time : Decoder cfg Unit)
      (fun _ => P) := by
  refine maintains_ite (fun _ => maintains_pure (fun _ h => h)) (fun _ => ?_)
  refine maintains_bind (maintains_answered hP _) (fun fails => ?_)
  refine maintains_ite (fun _ => maintains_pure (fun _ h => h)) (fun _ => ?_)
  refine maintains_bind (R := fun _ => P) (maintains_modify ?_) (fun _ => ?_)
  · exact fun w hI h => ⟨hI.purge (hI.db.wf.purgeRows _ _) rfl rfl rfl, hPdb w _ rfl h⟩
  refine maintains_bind (maintains_answered hP _) (fun fails => ?_)
  refine maintains_ite (fun _ => maintains_pure (fun _ h => h)) (fun _ => maintains_modify ?_)
  exact fun w hI h => ⟨hI.purge (hI.db.wf.purgeUndo _) rfl rfl rfl, hPdb w _ rfl h⟩

theorem maintains_commitBlockBatch (blockIndex time : Int) :
    Maintains (images cfg) (fun _ => True)
      (commitBlockBatch rules blockIndex time : Decoder cfg Bool)
      (fun b w => b = false → CursorLow cfg w) := by
  refine maintains_bind maintains_commitTransaction (fun committed => ?_)
  refine maintains_ite (fun _ => ?_) (fun _ => ?_)
  · refine maintains_bind (R := fun _ _ => True) (maintains_observe (fun _ _ => trivial)) ?_
    refine fun _ => maintains_bind (R := fun _ _ => True) (maintains_updateLoop (fun _ _ => trivial)) ?_
    refine fun _ => maintains_bind
      (maintains_purgeExpiredAfterCommit settled_true (fun _ _ _ _ => trivial) _ _) ?_
    refine fun _ => maintains_bind (R := fun _ _ => True) (maintains_updateLoop (fun _ _ => trivial)) ?_
    exact fun _ => maintains_pure (fun _ _ h => by cases h)
  · refine maintains_bind maintains_deriveCursors (fun _ => ?_)
    refine maintains_bind (R := fun _ => CursorLow cfg) (maintains_updateLoop (fun _ h => h)) ?_
    refine fun _ => maintains_bind (maintains_sleep settled_cursorLow) ?_
    exact fun _ => maintains_pure (fun _ h _ => h)

theorem maintains_advance {blockIndex : Int} (hge : cfg.startBlockIndex ≤ blockIndex)
    (time : Int) :
    Maintains (images cfg) (fun _ => True)
      (advance rules blockIndex time : Decoder cfg PassEnd) (fun _ => CursorLow cfg) := by
  refine maintains_get_bind (fun w _ _ => ?_)
  refine maintains_bind (R := fun b w => b = false → CursorLow cfg w) ?_ (fun committed => ?_)
  · refine maintains_ite (fun _ => ?_) (fun _ => maintains_pure (fun _ _ h => by cases h))
    exact (maintains_commitBlockBatch blockIndex time).weaken (fun _ _ _ => trivial)
      (fun _ _ h => h)
  refine maintains_ite (fun _ => ?_) (fun hnot => maintains_pure (fun _ h => h ?_))
  · refine maintains_bind (R := fun _ => CursorLow cfg) (maintains_modify ?_)
      (fun _ => maintains_pure (fun _ h => h))
    refine fun w hI _ => ⟨hI.congr rfl (.inl rfl), ?_⟩
    show cfg.startBlockIndex - 1 ≤ blockIndex
    omega
  · simpa using hnot

/-- **Main theorem.** `storeBlock` keeps every image a stored chain, and a pass
    that is not rolled back leaves the cursor at the start height or above. -/
theorem maintains_storeBlock (hash : Hash) (block : RawBlock) :
    Maintains (images cfg) (Extending n block.prevHash)
      (storeBlock rules n hash block : Decoder cfg PassEnd)
      (fun e w => e ≠ .rollback → CursorLow cfg w) := by
  refine maintains_get_bind (fun w _ hw => ?_)
  have hge : cfg.startBlockIndex ≤ n := hw.start_le
  refine maintains_bind (R := fun _ => Extending n block.prevHash) (maintains_observe ?_)
    (fun _ => ?_)
  · exact fun _ h => ⟨h.1.start_le, h.1.below⟩
  refine maintains_get_bind (fun w _ hw => ?_)
  refine maintains_bind (R := fun _ => Extending n block.prevHash) ?_ (fun _ => ?_)
  · refine maintains_ite (fun _ => ?_) (fun _ => maintains_pure (fun _ h => h.1))
    -- the image of a transaction that begins is the committed one
    intro env w' hI h
    cases htxn : w'.txn with
    | none =>
      refine wp_beginTransaction htxn ⟨hI.db, nofun⟩ ⟨hI.tock env, nofun⟩ ⟨?_, fun _ _ => ?_⟩
      · refine ⟨(hI.tock env).db, fun t ht => ?_⟩
        cases ht
        exact (hI.tock env).db
      · refine ⟨hge, fun hlt => ?_⟩
        have hbelow := h.1.below hlt
        rw [Idle.view htxn] at hbelow
        show ((w'.tock env).db).hashAt (n - 1) = _
        rw [tock_db]
        exact hbelow
    | some t =>
      unfold beginTransaction
      rw [wp_bind, wp_get, continuesWith_ok, htxn]
      exact ⟨hI, nofun⟩
  refine maintains_bind (maintains_fillBlock hash block) (fun a => ?_)
  cases a with
  | none      => exact maintains_pure (fun _ _ h => absurd rfl h)
  | some time =>
    exact (maintains_advance hge time).weaken (fun _ _ _ => trivial) (fun _ _ h _ => h)

end XChainDecoder
