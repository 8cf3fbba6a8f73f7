import XChainDecoder.Ingest.Twin

/-! # Purging and the capture set

    A purge deletes dispenser rows by a floor taken from the block just
    committed; a later block captures again for rows marked or expiring no
    earlier than a floor of its own. Where no block's capture floor lies below
    the floor of an earlier purge, a decoder that purges and one that never does
    have the same capture set at every block. On a network whose protocol time
    is the median time past, that is so on every chain; on one that reads the
    raw header times it is not.

    **Main theorem.** `Forward.purge_invisible`. -/

namespace XChainDecoder

/-- The two statements of a purge. -/
def Action.isPurge : Action → Bool
  | .purgeDispensers => true
  | .purgeUndo       => true
  | _                => false

/-- The same run without its purges. -/
def neverPurging (as : List Action) : List Action := as.filter (fun a => !a.isPurge)

/-- The capture floor of a block. -/
def BlockTimeContext.captureFloor (rules : Rules) (times : BlockTimeContext) : Option Int :=
  cancelGraceFloor rules times.protocolBlockTime times.parentProtocolTime

/-- A block as its pass reads it, without the tables it was opened on. -/
def CurrentBlock.pass {weight : String → String} (b : CurrentBlock weight) :
    BlockHead × RawBlock × (Nat → Bool) × Nat :=
  (b.head, b.block, b.quarantined, b.position)

/-! ## Section 1: Opening a block on a twin -/

namespace Draft

open Tables

variable {weight : String → String} {rules : Rules} {n : Int} {K : Int × Nat → Bool}
  {D : DispenserRow → Prop} {d : Draft weight} {t : Tables weight} {ds : List DispenserRow}
  {u : List ExtensionUndoRow}

theorem timesOf_swap (block : RawBlock) :
    timesOf rules n block (t.swap ds u) = timesOf rules n block t := by
  simp only [timesOf, blockTimesBelow_swap]

/-- No dead row is captured under the floor of the block. -/
theorem getAllOpenDispenserAddresses_swap {floor : Option Int} (h : Twin n K D t ds)
    (hfaded : ∀ d m, D d → d.expiredBlockIndex = some m → m < n → ∀ f, floor = some f →
      d.expiration < f ∧ ∀ time, t.toChainRows.markTime d = some time → time < f) :
    (t.swap ds u).getAllOpenDispenserAddresses floor = t.getAllOpenDispenserAddresses floor := by
  unfold getAllOpenDispenserAddresses
  have hcaptures : (t.swap ds u).toChainRows.captures floor = t.toChainRows.captures floor := rfl
  rw [hcaptures, swap_dispensers, swap_indexAddresses, h.filter_eq]
  intro d hd hdead
  rcases h.closed d hd hdead with ⟨m, hm, hlt⟩
  cases floor with
  | none => simp [ChainRows.captures, hm]
  | some f =>
    rcases hfaded d m (h.dead d hd hdead) hm hlt f rfl with ⟨hexpired, hmark⟩
    have hnot : ((t.toChainRows.markTime d).any (fun time => f ≤ time)) = false := by
      cases htime : t.toChainRows.markTime d with
      | none => rfl
      | some time => simpa using hmark time htime
    simp [ChainRows.captures, hm, hnot, hexpired]

theorem openBlock_alongside {hash : Hash} {block : RawBlock} {lastTxIndex : Int}
    (h : Twin n K D t ds)
    (hfaded : ∀ d, D d → ∀ f, (timesOf rules n block t).captureFloor rules = some f →
      d.expiration < f ∧ ∀ time, t.toChainRows.markTime d = some time → time < f)
    (hopen : openBlock rules n hash block t lastTxIndex = some d) :
    ∃ ds', openBlock rules n hash block (t.swap ds u) lastTxIndex = some (d.swap ds' u) ∧
      Twin n K D d.tables ds' := by
  unfold openBlock at hopen ⊢
  simp only [timesOf_swap, insertBlock_swap]
  rcases Option.bind_eq_some_iff.mp hopen with ⟨t₁, hinsert, hopen⟩
  simp only [Option.pure_def, Option.some.injEq] at hopen
  have hrows := hinsert
  unfold Tables.insertBlock at hrows
  dsimp only at hrows
  by_cases htaken : n ∈ t.heights
  · simp [htaken] at hrows
  rw [if_neg htaken, Option.some.injEq] at hrows
  have htwin₁ : Twin n K D t₁ ds := by
    rw [← hrows]
    exact h.congr rfl (fun _ hi => hi)
  -- the new row is the only one of its height, so it moves no mark below
  have hmark : ∀ t₂ : Tables weight, t₂.blocks = t₁.blocks → ∀ d m, D d →
      d.expiredBlockIndex = some m → m < n → ∀ f,
      (timesOf rules n block t).captureFloor rules = some f →
      d.expiration < f ∧ ∀ time, t₂.toChainRows.markTime d = some time → time < f := by
    intro t₂ hblocks d m hD hm hlt f hf
    have hsame : t₂.toChainRows.markTime d = t.toChainRows.markTime d := by
      have hadd : t₂.toChainRows.blockTimeAt m = (t.toChainRows.addBlock
          ⟨n, (timesOf rules n block t).rawBlockTime, (t.createTransaction hash).1,
            ((t.createTransaction hash).2.createTransaction block.prevHash).1⟩).blockTimeAt m := by
        apply ChainRows.blockTimeAt_congr
        rw [hblocks, ← hrows]
        rfl
      have hne : ¬ n = m := by omega
      simp [ChainRows.markTime, hm, hadd, ChainRows.blockTimeAt_addBlock, hne]
    rw [hsame]
    exact hfaded d hD f hf
  rw [hinsert]
  by_cases hgate : gateActive rules.expiryRealignActivation
      (timesOf rules n block t).protocolBlockTime = true
  · simp only [hgate, if_true] at hopen ⊢
    refine ⟨ds, ?_, by rw [← hopen]; exact htwin₁⟩
    rw [← hopen]
    have hcapture := getAllOpenDispenserAddresses_swap (u := u) htwin₁ (hmark t₁ rfl)
    show some (Draft.mk _ lastTxIndex _) = some (Draft.mk _ lastTxIndex _)
    exact congrArg (fun addresses => some (Draft.mk _ lastTxIndex addresses)) hcapture
  · have hoff : gateActive rules.expiryRealignActivation
        (timesOf rules n block t).protocolBlockTime = false := by simpa using hgate
    rcases htwin₁.deleteOpenDispensers (u := u) (timesOf rules n block t).protocolBlockTime
      with ⟨ds', hdelete, htwin₂⟩
    simp only [hoff] at hopen ⊢
    refine ⟨ds', ?_, by rw [← hopen]; exact htwin₂⟩
    rw [← hopen]
    have hcapture := getAllOpenDispenserAddresses_swap (u := u) htwin₂ (hmark _ rfl)
    show some (Draft.mk ((t₁.swap ds u).deleteOpenDispensers n _) lastTxIndex
      (((t₁.swap ds u).deleteOpenDispensers n _).getAllOpenDispenserAddresses _)) = _
    rw [hdelete]
    exact congrArg (fun addresses => some (Draft.mk _ lastTxIndex addresses)) hcapture

theorem closeBlock_alongside (rules : Rules) (h : Twin n K D d.tables ds) (time : Int) :
    ∃ ds', (d.swap ds u).closeBlock rules n time = (d.closeBlock rules n time).swap ds' u ∧
      Twin n K D (d.closeBlock rules n time).tables ds' := by
  unfold closeBlock
  by_cases hgate : gateActive rules.expiryRealignActivation time = true
  · rw [if_pos hgate, if_pos hgate]
    rcases h.deleteOpenDispensers (u := u) time with ⟨ds', hdelete, htwin⟩
    exact ⟨ds', congrArg (fun t => Draft.mk t d.lastTxIndex d.openAddresses) hdelete, htwin⟩
  · rw [if_neg hgate, if_neg hgate]
    exact ⟨ds, rfl, h⟩

end Draft

/-! ## Section 2: Two runs side by side -/

namespace Forward

open Tables

variable {cfg : Config} {rules : Rules} {K : Int × Nat → Bool} {D : DispenserRow → Prop}
  {a : Action} {as bs : List Action} {s s' s₂ s₂' : Forward cfg.weight} {ds : List DispenserRow}
  {u : List ExtensionUndoRow}

/-- The height of the block under way, or else of the next one. -/
def passHeight (cfg : Config) (s : Forward cfg.weight) : Int :=
  match s.current with
  | none   => s.nextBlockHeight cfg
  | some b => b.head.blockIndex

/-- `s₂` is `s` with dead rows: those of the keys `K`, all of the kind `D`. -/
structure Mirrors (K : Int × Nat → Bool) (D : DispenserRow → Prop) (s s₂ : Forward cfg.weight)
    (ds : List DispenserRow) (u : List ExtensionUndoRow) : Prop where
  draft    : s₂.draft = s.draft.swap ds u
  resolved : s₂.resolved = s.resolved
  current  : s₂.current.map CurrentBlock.pass = s.current.map CurrentBlock.pass
  twin     : Twin (s.passHeight cfg) K D s.draft.tables ds

theorem Mirrors.nextBlockHeight (h : Mirrors K D s s₂ ds u) :
    s₂.nextBlockHeight cfg = s.nextBlockHeight cfg := by
  simp [Forward.nextBlockHeight, h.resolved]

/-- Dead rows stay dead as the height grows. -/
theorem Twin.later {weight : String → String} {t : Tables weight} {n n' : Int} (hle : n ≤ n')
    (h : Twin n K D t ds) : Twin n' K D t ds where
  rows   := h.rows
  closed := by
    intro d hd hdead
    rcases h.closed d hd hdead with ⟨m, hm, hlt⟩
    exact ⟨m, hm, by omega⟩
  dead   := h.dead
  used   := h.used

/-- A step that is no purge goes the same way on the mirror. -/
theorem Step.mirrored (h : Step rules s a s') (hmirror : Mirrors K D s s₂ ds u)
    (hs : Consistent rules s) (hpurge : a.isPurge = false)
    (hfaded : ∀ d, D d → ∀ times, s'.resolved = s.resolved ++ [times] →
      ∀ f, times.captureFloor rules = some f →
      d.expiration < f ∧ ∀ time, s.draft.tables.toChainRows.markTime d = some time → time < f) :
    ∃ s₂' ds' u', step rules a s₂ = some s₂' ∧ Mirrors K D s' s₂' ds' u' := by
  have hnext := hmirror.nextBlockHeight
  have htwin := hmirror.twin
  cases h with
  | @openBlock quarantined hash block lastTxIndex d hnone hopen =>
    have hnone₂ : s₂.current = none := by
      have hcurrent := hmirror.current
      rw [hnone] at hcurrent
      simpa using hcurrent
    simp only [passHeight, hnone] at htwin
    -- the twin opens the same block, on the rows that were not purged
    rcases Draft.openBlock_alongside (u := u) htwin (fun d hD => hfaded d hD _ rfl) hopen
      with ⟨ds', hopen', htwin'⟩
    rw [← hnext] at hopen'
    refine ⟨s₂.opened rules quarantined hash block (d.swap ds' u), ds', u, ?_, rfl, ?_, ?_, htwin'⟩
    · simp only [step, hnone₂, hmirror.draft]
      show Option.map _ (Draft.openBlock rules (s₂.nextBlockHeight cfg) hash block
        (s.draft.tables.swap ds u) lastTxIndex) = _
      rw [hopen']
      rfl
    · simp only [opened, hmirror.resolved, hnext, hmirror.draft]
      show s.resolved ++ [Draft.timesOf rules _ block (s.draft.tables.swap ds u)] = _
      rw [Draft.timesOf_swap]
    · simp only [opened, Option.map_some, CurrentBlock.pass, hnext, hmirror.draft]
      show some ((⟨_, hash, (Draft.timesOf rules _ block
        (s.draft.tables.swap ds u)).protocolBlockTime⟩ : BlockHead), _) = _
      rw [Draft.timesOf_swap]
  | @ingestTransaction b tx d hsome htx hingest =>
    rcases hb₂ : s₂.current with _ | b₂
    · have hcurrent := hmirror.current
      rw [hsome, hb₂] at hcurrent
      simp at hcurrent
    have hpass : b₂.pass = b.pass := by
      have hcurrent := hmirror.current
      rw [hsome, hb₂] at hcurrent
      simpa using hcurrent
    simp only [CurrentBlock.pass, Prod.mk.injEq] at hpass
    rcases hpass with ⟨hhead, hblock, hquarantined, hposition⟩
    simp only [passHeight, hsome] at htwin
    rcases Draft.ingestTransaction_alongside (u := u) rfl htwin d hingest with ⟨ds', u', hd', htwin'⟩
    refine ⟨s₂.ingested b₂ (d.swap ds' u'), ds', u', ?_, rfl, hmirror.resolved, ?_, htwin'⟩
    · simp only [step, hb₂, hblock, hposition, htx, hmirror.draft, hhead, hquarantined,
        Option.bind_some, hd', Option.map_some]
    · simp only [ingested, Option.map_some, CurrentBlock.pass, hhead, hblock, hquarantined, hposition]
  | @closeBlock b hsome hall =>
    rcases hb₂ : s₂.current with _ | b₂
    · have hcurrent := hmirror.current
      rw [hsome, hb₂] at hcurrent
      simp at hcurrent
    have hpass : b₂.pass = b.pass := by
      have hcurrent := hmirror.current
      rw [hsome, hb₂] at hcurrent
      simpa using hcurrent
    simp only [CurrentBlock.pass, Prod.mk.injEq] at hpass
    rcases hpass with ⟨hhead, hblock, -, hposition⟩
    have hheight := (hs.underWay b hsome).height
    simp only [passHeight, hsome] at htwin
    rcases Draft.closeBlock_alongside (u := u) rules htwin b.head.time
      with ⟨ds', hd', htwin'⟩
    refine ⟨s₂.closed rules b₂, ds', u, ?_, ?_, hmirror.resolved, rfl, ?_⟩
    · simp [step, hb₂, hblock, hposition, hall]
    · simp only [closed, hmirror.draft, hhead, hd']
    -- the block is done: what was of its height is of an earlier one now
    · apply Twin.later (n := b.head.blockIndex) _ htwin'
      rw [hheight]
      simp only [passHeight, closed, Forward.nextBlockHeight]
      omega
  | purgeDispensers hnone hsafe => simp [Action.isPurge] at hpurge
  | purgeUndo hnone hsafe => simp [Action.isPurge] at hpurge

/-! ## Section 3: Purging on one side -/

/-- The purge statement over the undo rows reaches nothing the other run reads. -/
theorem Mirrors.purgeUndo (h : Mirrors K D s s₂ ds u) (n : Int) :
    Mirrors K D (s.setRows (·.purgeUndo n)) s₂ ds u :=
  ⟨h.draft, h.resolved, h.current, h.twin.congr rfl (fun _ hi => hi)⟩

/-- The rows a purge deletes are dead in the run that keeps them. -/
theorem Mirrors.purgeDispensers (h : Mirrors K D s s₂ ds u) (hs₂ : Consistent rules s₂)
    (hcurrent : s.current = none) {n : Int} {floor : Option Int} (hn : n < s.nextBlockHeight cfg)
    (hD : ∀ d ∈ ds, s.draft.tables.toChainRows.purgeable n floor d = true → D d) :
    ∃ K', Mirrors K' D (s.setRows (·.purgeRows n floor)) s₂ ds u := by
  have hds : s₂.draft.tables.dispensers = ds := by
    rw [h.draft]
    rfl
  have htxs : s₂.draft.tables.toChainRows.txIndexes = s.draft.tables.toChainRows.txIndexes := by
    rw [h.draft]
    rfl
  let gone := fun d => s.draft.tables.toChainRows.purgeable n floor d
  let K' := fun key => K key || ds.any (fun d => decide (d.key = key) && gone d)
  -- a key stands for one row of the table
  have hkey : ∀ d ∈ ds, K' d.key = (K d.key || gone d) := by
    intro d hd
    have hany : ds.any (fun e => decide (e.key = d.key) && gone e) = gone d := by
      rw [Bool.eq_iff_iff, List.any_eq_true]
      constructor
      · rintro ⟨e, he, hboth⟩
        simp only [Bool.and_eq_true, decide_eq_true_eq] at hboth
        have hsame := hs₂.wf.dispenser_eq (hds ▸ he) (hds ▸ hd) hboth.1
        rw [← hsame]
        exact hboth.2
      · intro hgone
        exact ⟨d, hd, by simpa using hgone⟩
    simp only [K', hany]
  refine ⟨K', h.draft, h.resolved, h.current, ?_, ?_, ?_, ?_⟩
  · show s.draft.tables.dispensers.filter (fun d => !gone d) = _
    rw [h.twin.rows, List.filter_filter]
    apply List.filter_congr
    intro d hd
    rw [hkey d hd, Bool.not_or, Bool.and_comm]
  · intro d hd hdead
    rw [hkey d hd, Bool.or_eq_true] at hdead
    rcases hdead with hdead | hgone
    · exact h.twin.closed d hd hdead
    · simp only [passHeight, setRows, hcurrent]
      cases hm : d.expiredBlockIndex with
      | none => simp [gone, ChainRows.purgeable, hm] at hgone
      | some m =>
        have hle : m ≤ n := by
          simp only [gone, ChainRows.purgeable, hm, Bool.and_eq_true, decide_eq_true_eq] at hgone
          exact hgone.1
        exact ⟨m, rfl, lt_of_le_of_lt hle hn⟩
  · intro d hd hdead
    rw [hkey d hd, Bool.or_eq_true] at hdead
    rcases hdead with hdead | hgone
    · exact h.twin.dead d hd hdead
    · exact hD d hd hgone
  · intro key hK
    simp only [K', Bool.or_eq_true, List.any_eq_true, Bool.and_eq_true, decide_eq_true_eq] at hK
    rcases hK with hK | ⟨d, hd, hsame, -⟩
    · exact h.twin.used key hK
    · rw [← hsame]
      show d.txIndex ∈ s.draft.tables.toChainRows.txIndexes
      rw [← htxs]
      exact hs₂.wf.dispenser_tx d (hds ▸ hd)

/-! ## Section 4: Floors along a run -/

/-- `F` is the floor of a purge of the run, one that may reach a stored block. -/
def PurgedUnder (cfg : Config) (rules : Rules) (as : List Action) (n : Nat) (F : Int) : Prop :=
  ∃ bs cs, ∃ s₁ : Forward cfg.weight, as = bs ++ .purgeDispensers :: cs ∧
    run rules bs (init cfg.weight) = some s₁ ∧ s₁.resolved.length = n ∧
    cfg.startBlockIndex ≤ s₁.safeHeight cfg ∧ s₁.purgeFloor rules = some F

/-- No block's capture floor lies below the floor of an earlier purge. -/
def FloorsCover (cfg : Config) (rules : Rules) (as : List Action) (s : Forward cfg.weight) : Prop :=
  ∀ n F, PurgedUnder cfg rules as n F → ∀ i times f, n ≤ i → s.resolved[i]? = some times →
    times.captureFloor rules = some f → F ≤ f

/-- A row that a purge of the run deleted. -/
def Faded (rules : Rules) (as : List Action) (s : Forward cfg.weight) (d : DispenserRow) : Prop :=
  ∃ n F, PurgedUnder cfg rules as n F ∧ n ≤ s.resolved.length ∧ d.expiration < F ∧
    ∀ time, s.draft.tables.toChainRows.markTime d = some time → time < F

theorem PurgedUnder.snoc {n : Nat} {F : Int} (h : PurgedUnder cfg rules as n F)
    (a : Action) : PurgedUnder cfg rules (as ++ [a]) n F := by
  rcases h with ⟨bs, cs, s₁, has, hrest⟩
  exact ⟨bs, cs ++ [a], s₁, by simp [has], hrest⟩

/-- What a block resolved keeps its place. -/
theorem Step.getElem?_resolved (h : Step rules s a s') {i : Nat} {times : BlockTimeContext}
    (hi : s.resolved[i]? = some times) : s'.resolved[i]? = some times := by
  rcases h.blocks with ⟨hresolved, -⟩ | ⟨times', row, hresolved, -⟩
  · rw [hresolved]
    exact hi
  · have hlt := (List.getElem?_eq_some_iff.mp hi).1
    rw [hresolved, List.getElem?_append_left hlt]
    exact hi

theorem getElem?_resolved_of_run (h : run rules as s = some s') {i : Nat} {times : BlockTimeContext}
    (hi : s.resolved[i]? = some times) : s'.resolved[i]? = some times :=
  run_invariant (P := fun s => s.resolved[i]? = some times) h hi
    (fun _ _ _ hstep hs => hstep.getElem?_resolved hs)

theorem Step.length_resolved_le (h : Step rules s a s') :
    s.resolved.length ≤ s'.resolved.length := by
  rcases h.blocks with ⟨hresolved, -⟩ | ⟨times', row, hresolved, -⟩
  · rw [hresolved]
  · rw [hresolved, List.length_append]
    omega

/-- The time of a mark is fixed once its block is stored. -/
theorem Step.markTime (h : Step rules s a s') {d : DispenserRow} {m : Int}
    (hm : d.expiredBlockIndex = some m) (hlt : m < s.nextBlockHeight cfg) :
    s'.draft.tables.toChainRows.markTime d = s.draft.tables.toChainRows.markTime d := by
  simp only [ChainRows.markTime, hm, Option.bind_some]
  rcases h.blocks with ⟨-, hblocks⟩ | ⟨times, row, -, -, hindex, -, hblocks⟩
  · exact ChainRows.blockTimeAt_congr hblocks
  · have hadd : s'.draft.tables.toChainRows.blockTimeAt m =
        (s.draft.tables.toChainRows.addBlock row).blockTimeAt m :=
      ChainRows.blockTimeAt_congr hblocks
    have hne : ¬ row.blockIndex = m := by omega
    rw [hadd, ChainRows.blockTimeAt_addBlock, if_neg hne, Option.or_none]

theorem passHeight_le (hs : Consistent rules s) : s.passHeight cfg ≤ s.nextBlockHeight cfg := by
  unfold passHeight
  cases hcurrent : s.current with
  | none => exact le_rfl
  | some b =>
    have hheight := (hs.underWay b hcurrent).height
    simp only
    omega

/-- The kind of the dead rows, seen another way. -/
theorem Mirrors.weaken {D' : DispenserRow → Prop} (h : Mirrors K D s s₂ ds u)
    (hD : ∀ d m, D d → d.expiredBlockIndex = some m → m < s.passHeight cfg → D' d) :
    Mirrors K D' s s₂ ds u where
  draft    := h.draft
  resolved := h.resolved
  current  := h.current
  twin     := by
    refine ⟨h.twin.rows, h.twin.closed, ?_, h.twin.used⟩
    intro d hd hdead
    rcases h.twin.closed d hd hdead with ⟨m, hm, hlt⟩
    exact hD d m (h.twin.dead d hd hdead) hm hlt

/-- Rows that were faded before a step are faded behind it. -/
theorem Faded.step {d : DispenserRow} {m : Int} (h : Faded rules as s d) (hstep : Step rules s a s')
    (hm : d.expiredBlockIndex = some m) (hlt : m < s.nextBlockHeight cfg) :
    Faded rules (as ++ [a]) s' d := by
  rcases h with ⟨n, F, hpurged, hn, hexpired, hmark⟩
  refine ⟨n, F, hpurged.snoc a, hn.trans hstep.length_resolved_le, hexpired, ?_⟩
  rw [hstep.markTime hm hlt]
  exact hmark

/-- What a purge deletes is faded. -/
theorem faded_of_purgeable (h : run rules as (init cfg.weight) = some s)
    (hgate : ∀ times ∈ s.resolved,
      gateActive rules.purgeGraceActivation times.protocolBlockTime = true)
    (hs₂ : Consistent rules s₂) (hmirror : Mirrors K D s s₂ ds u) {d : DispenserRow} (hd : d ∈ ds)
    (hgone : s.draft.tables.toChainRows.purgeable (s.safeHeight cfg) (s.purgeFloor rules) d = true) :
    Faded rules (as ++ [.purgeDispensers])
      (s.setRows (·.purgeRows (s.safeHeight cfg) (s.purgeFloor rules))) d := by
  have hds : d ∈ s₂.draft.tables.dispensers := by
    rw [hmirror.draft]
    exact hd
  cases hm : d.expiredBlockIndex with
  | none => simp [ChainRows.purgeable, hm] at hgone
  | some m =>
    rcases hs₂.marks d hds m hm with ⟨times, htimes, -⟩
    have hstart : cfg.startBlockIndex ≤ m := by
      by_contra hlow
      simp [timesAt, show m < cfg.startBlockIndex by omega] at htimes
    have hle : m ≤ s.safeHeight cfg := by
      simp only [ChainRows.purgeable, hm, Bool.and_eq_true, decide_eq_true_eq] at hgone
      exact hgone.1
    -- a block is stored, so there is a floor, and the gate is active there
    rcases hlast : s.resolved.getLast? with _ | p
    · have hnil : s.resolved = [] := List.getLast?_eq_none_iff.mp hlast
      simp only [safeHeight, nextBlockHeight, hnil, List.length_nil] at hle
      omega
    have hp := hgate p (List.mem_of_getLast? hlast)
    have hfloor : s.purgeFloor rules =
        some (p.protocolBlockTime - DISPENSER_CANCEL_GRACE_SECONDS) := by
      simp [purgeFloor, hlast, purgeGraceFloor, hp]
    rw [hfloor] at hgone
    simp only [ChainRows.purgeable, hm, Bool.and_eq_true, decide_eq_true_eq] at hgone
    rcases hgone with ⟨-, hexpired, hmark⟩
    refine ⟨s.resolved.length, _, ⟨as, [], s, rfl, h, rfl, hstart.trans hle, hfloor⟩, le_rfl,
      hexpired, ?_⟩
    intro time htime
    have htime' : s.draft.tables.toChainRows.markTime d = some time := htime
    simpa [htime'] using hmark

/-! ## Section 5: Purging is invisible -/

theorem neverPurging_snoc (as : List Action) (a : Action) :
    neverPurging (as ++ [a]) = if a.isPurge then neverPurging as else neverPurging as ++ [a] := by
  unfold neverPurging
  rw [List.filter_append]
  cases h : a.isPurge with
  | true => simp [h]
  | false => simp [h]

/-- Along a run that covers its floors, the run without purges goes the same way
    and differs in faded rows. -/
theorem mirrored_run (h : run rules as (init cfg.weight) = some s)
    (hgate : ∀ times ∈ s.resolved,
      gateActive rules.purgeGraceActivation times.protocolBlockTime = true)
    (hcover : FloorsCover cfg rules as s) :
    ∃ s₂ K ds u, run rules (neverPurging as) (init cfg.weight) = some s₂ ∧
      Mirrors K (Faded rules as s) s s₂ ds u := by
  induction as using List.reverseRecOn generalizing s with
  | nil =>
    simp only [run_nil, Option.some.injEq] at h
    refine ⟨init cfg.weight, fun _ => false, [], [], rfl, ?_⟩
    rw [← h]
    exact ⟨rfl, rfl, rfl, ⟨rfl, by simp, by simp, by simp⟩⟩
  | append_singleton as a ih =>
    rw [run_snoc] at h
    rcases Option.bind_eq_some_iff.mp h with ⟨s₀, hrun, hlast⟩
    have hstep := step_cases hlast
    have hs₀ := consistent hrun
    have hgate₀ : ∀ times ∈ s₀.resolved,
        gateActive rules.purgeGraceActivation times.protocolBlockTime = true := by
      intro times hmem
      rcases List.getElem?_of_mem hmem with ⟨i, hi⟩
      exact hgate times (List.mem_of_getElem? (hstep.getElem?_resolved hi))
    have hcover₀ : FloorsCover cfg rules as s₀ := by
      intro n F hpurged i times f hn hi hf
      exact hcover n F (hpurged.snoc a) i times f hn (hstep.getElem?_resolved hi) hf
    rcases ih hrun hgate₀ hcover₀ with ⟨s₂, K, ds, u, hrun₂, hmirror⟩
    have hs₂ := consistent hrun₂
    -- a faded row was marked before the block that is now next
    have hfaded : Mirrors K (fun d => Faded rules as s₀ d ∧
        ∃ m, d.expiredBlockIndex = some m ∧ m < s₀.nextBlockHeight cfg) s₀ s₂ ds u := by
      apply hmirror.weaken
      intro d m hd hm hlt
      exact ⟨hd, m, hm, lt_of_lt_of_le hlt (passHeight_le hs₀)⟩
    have hbehind : ∀ d, (Faded rules as s₀ d ∧
        ∃ m, d.expiredBlockIndex = some m ∧ m < s₀.nextBlockHeight cfg) →
        Faded rules (as ++ [a]) s d := by
      rintro d ⟨hd, m, hm, hlt⟩
      exact hd.step hstep hm hlt
    by_cases hpurge : a.isPurge = true
    · rw [neverPurging_snoc, if_pos hpurge]
      cases hstep with
      | openBlock hnone hopen => simp [Action.isPurge] at hpurge
      | ingestTransaction hsome htx hingest => simp [Action.isPurge] at hpurge
      | closeBlock hsome hall => simp [Action.isPurge] at hpurge
      | purgeDispensers hnone hsafe =>
        have hmirror' := hfaded.weaken (fun d _ hd _ _ => hbehind d hd)
        have hn : s₀.safeHeight cfg < s₀.nextBlockHeight cfg := by
          unfold safeHeight
          omega
        rcases hmirror'.purgeDispensers hs₂ hnone hn
          (fun d hd hgone => faded_of_purgeable hrun hgate₀ hs₂ hmirror hd hgone) with ⟨K', hK'⟩
        exact ⟨s₂, K', ds, u, hrun₂, hK'⟩
      | purgeUndo hnone hsafe =>
        have hmirror' := hfaded.weaken (fun d _ hd _ _ => hbehind d hd)
        exact ⟨s₂, K, ds, u, hrun₂, hmirror'.purgeUndo _⟩
    · have hno : a.isPurge = false := by simpa using hpurge
      rcases hstep.mirrored hfaded hs₀ hno (by
        rintro d ⟨⟨n, F, hpurged, hn, hexpired, hmark⟩, -⟩ times hresolved f hf
        -- the block just opened covers the floor the row was purged under
        have hlen : s.resolved[s₀.resolved.length]? = some times := by simp [hresolved]
        have hle := hcover n F (hpurged.snoc a) s₀.resolved.length times f hn hlen hf
        exact ⟨lt_of_lt_of_le hexpired hle, fun time htime => lt_of_lt_of_le (hmark time htime) hle⟩)
        with ⟨s₂', ds', u', hstep₂, hmirror'⟩
      refine ⟨s₂', K, ds', u', ?_, hmirror'.weaken (fun d _ hd _ _ => hbehind d hd)⟩
      rw [neverPurging_snoc, if_neg hpurge, run_snoc, hrun₂]
      exact hstep₂

/-- What holds of a run holds of the blocks it began with. -/
theorem FloorsCover.of_append (hcover : FloorsCover cfg rules (as ++ bs) s')
    (h : run rules bs s = some s') : FloorsCover cfg rules as s := by
  intro n F hpurged i times f hn hi hf
  have hwhole : PurgedUnder cfg rules (as ++ bs) n F := by
    rcases hpurged with ⟨bs₁, cs, s₁, has, hrest⟩
    exact ⟨bs₁, cs ++ bs, s₁, by simp [has], hrest⟩
  exact hcover n F hwhole i times f hn (getElem?_resolved_of_run h hi) hf

/-- On a network whose protocol time is the median time past no floor ever falls
    below an earlier purge. -/
theorem floorsCover_of_median {chain : ℕ → ℕ} (hmtp : rules.protocolTimeMtp = true)
    (hdepth : MEDIAN_TIME_SPAN ≤ cfg.safeDepth) (hchain : AboveMedian chain)
    (hfed : Follows cfg chain as) (h : run rules as (init cfg.weight) = some s) :
    FloorsCover cfg rules as s := by
  rintro n F ⟨bs, cs, s₁, has, hrun₁, hlen, hreach, hfloor⟩ i times f hn hi hf
  -- the purge ran behind a block with a full window below it
  have hfull : MEDIAN_TIME_SPAN ≤ n - 1 := by
    simp only [safeHeight, nextBlockHeight, hlen] at hreach
    omega
  have hone : 1 ≤ n := by
    simp only [MEDIAN_TIME_SPAN] at hfull
    omega
  rcases hlast : s₁.resolved.getLast? with _ | p
  · simp [purgeFloor, hlast] at hfloor
  have hp : s.resolved[n - 1]? = some p := by
    rw [List.getLast?_eq_getElem?, hlen] at hlast
    rw [has, run_append, hrun₁] at h
    exact getElem?_resolved_of_run h hlast
  have hF : F = p.protocolBlockTime - DISPENSER_CANCEL_GRACE_SECONDS := by
    simp only [purgeFloor, hlast, Option.bind_some, purgeGraceFloor] at hfloor
    split at hfloor
    · exact (Option.some.inj hfloor).symm
    · simp at hfloor
  have hself : p.protocolBlockTime ≤ times.protocolBlockTime :=
    protocolBlockTime_le hmtp hchain hfed h hp hi hfull (by omega)
  have hlt := (List.getElem?_eq_some_iff.mp hi).1
  obtain ⟨k, rfl⟩ : ∃ k, i = k + 1 := ⟨i - 1, by omega⟩
  have hk : s.resolved[k]? = some s.resolved[k] := List.getElem?_eq_getElem (by omega)
  have hparent : p.protocolBlockTime ≤ s.resolved[k].protocolBlockTime :=
    protocolBlockTime_le hmtp hchain hfed h hp hk hfull (by omega)
  unfold BlockTimeContext.captureFloor cancelGraceFloor at hf
  split at hf
  · simp only [Option.some.injEq] at hf
    rw [hF, ← hf]
    apply Int.sub_le_sub_right
    split
    · next hgate =>
      rw [parentProtocolTime_eq hmtp hfed h hk hi (.inr hgate)]
      exact le_min hself hparent
    · exact hself
  · simp at hf

/-- **Main theorem.** With the purge grace in force, along every forward run in
    which no block's capture floor lies below the floor of an earlier purge, and
    so along every forward run of a network whose protocol time is the median
    time past: at each of its states the capture set is that of the decoder that
    never purges. -/
theorem purge_invisible (h : run rules as (init cfg.weight) = some s)
    (hgate : ∀ times ∈ s.resolved,
      gateActive rules.purgeGraceActivation times.protocolBlockTime = true)
    (hcover : FloorsCover cfg rules as s ∨
      (rules.protocolTimeMtp = true ∧ MEDIAN_TIME_SPAN ≤ cfg.safeDepth ∧
        ∃ chain, AboveMedian chain ∧ Follows cfg chain as)) :
    ∀ bs cs s', as = bs ++ cs → run rules bs (init cfg.weight) = some s' →
      ∃ s₂, run rules (neverPurging bs) (init cfg.weight) = some s₂ ∧
        s₂.resolved = s'.resolved ∧
        s₂.current.map CurrentBlock.pass = s'.current.map CurrentBlock.pass ∧
        s₂.draft.openAddresses = s'.draft.openAddresses := by
  have hfloors : FloorsCover cfg rules as s := by
    rcases hcover with hcover | ⟨hmtp, hdepth, chain, hchain, hfed⟩
    · exact hcover
    · exact floorsCover_of_median hmtp hdepth hchain hfed h
  intro bs cs s' has hrun
  rw [has, run_append, hrun] at h
  have hgate' : ∀ times ∈ s'.resolved,
      gateActive rules.purgeGraceActivation times.protocolBlockTime = true := by
    intro times hmem
    rcases List.getElem?_of_mem hmem with ⟨i, hi⟩
    exact hgate times (List.mem_of_getElem? (getElem?_resolved_of_run h hi))
  rw [has] at hfloors
  rcases mirrored_run hrun hgate' (hfloors.of_append h) with ⟨s₂, K, ds, u, hrun₂, hmirror⟩
  refine ⟨s₂, hrun₂, hmirror.resolved, hmirror.current, ?_⟩
  rw [hmirror.draft]
  rfl

end Forward

/-! ## Section 6: Two networks -/

namespace Sample

/-- The first `n + 1` blocks of a chain; the first one creates a dispenser. -/
def blocksOf (chain : ℕ → ℕ) : ℕ → List Action
  | 0     => ingestAll (chain 0) [⟨some hashB, [1]⟩] (-1)
  | n + 1 => blocksOf chain n ++ ingestAll (chain (n + 1)) [] 0

/-- These blocks, a purge, and one more block. -/
def purgeThenOpen (chain : ℕ → ℕ) (n : ℕ) : List Action :=
  blocksOf chain n ++ [.purgeDispensers, .purgeUndo,
    .openBlock (fun _ => false) hashA ⟨hashA, chain (n + 1), []⟩ 0]

def shallow : Config := { config with dispenserExpireSafeDepth := 11 }

def regtest : Config := { config with dispenserExpireSafeDepth := DISPENSER_EXPIRE_SAFE_DEPTH }

/-- On a network of median times the purge behind block 29 deletes the row. -/
def purged : List Action := purgeThenOpen headers 29

theorem run_purged : (@Forward.run shallow (rules true) purged
    (Forward.init shallow.weight)).isSome = true := by
  decide +kernel

def purgedRun : Forward shallow.weight :=
  (@Forward.run shallow (rules true) purged (Forward.init shallow.weight)).get run_purged

theorem follows_purged : Forward.Follows shallow headers purged := by
  intro i block hblock
  have hall : ∀ i < 31, ((Forward.openedBlocks purged)[i]?).map RawBlock.timestamp =
      some (headers (shallow.startBlockIndex.toNat + i) : ℤ) := by decide +kernel
  have hlen : (Forward.openedBlocks purged).length = 31 := by decide +kernel
  have hlt := (List.getElem?_eq_some_iff.mp hblock).1
  have htime := hall i (by omega)
  rw [hblock] at htime
  simpa using htime

theorem purge_invisible_purged : purgedRun.draft.tables.dispensers = [] ∧
    ∃ s₂, @Forward.run shallow (rules true) (neverPurging purged) (Forward.init shallow.weight) = some s₂ ∧
      s₂.draft.openAddresses = purgedRun.draft.openAddresses := by
  have hgone : purgedRun.draft.tables.dispensers = [] := by decide +kernel
  have hgates : purgedRun.resolved.all (fun times => gateActive (rules true).purgeGraceActivation
      times.protocolBlockTime) = true := by decide +kernel
  have hrun : @Forward.run shallow (rules true) purged (Forward.init shallow.weight) =
      some purgedRun := (Option.some_get run_purged).symm
  have hmedian : (rules true).protocolTimeMtp = true ∧ MEDIAN_TIME_SPAN ≤ shallow.safeDepth ∧
      ∃ chain, AboveMedian chain ∧ Forward.Follows shallow chain purged :=
    ⟨rfl, by decide, headers, aboveMedian_headers, follows_purged⟩
  rcases Forward.purge_invisible hrun (List.all_eq_true.mp hgates) (.inr hmedian) purged []
    purgedRun (List.append_nil _).symm hrun with ⟨s₂, hrun₂, -, -, hcapture⟩
  exact ⟨hgone, s₂, hrun₂, hcapture⟩

/-- A header far ahead of its neighbours at height 127. -/
def spikedHeaders (n : ℕ) : ℕ := if n = 0 then 600 else if n = 127 then 20000 else 5000 + n

/-- At most one entry of a window comes from a given height. -/
theorem countP_predecessors_le_one (chain : ℕ → ℤ) {q : ℤ → Bool} {k : ℕ} (span h : ℕ)
    (hq : ∀ n < h, q (chain n) = true → n = k) : (predecessors chain span h).countP q ≤ 1 := by
  induction span generalizing h with
  | zero => simp
  | succ span ih =>
    cases h with
    | zero => simp
    | succ h =>
      rw [predecessors_succ, List.countP_cons]
      cases hhead : q (chain h) with
      | false =>
        have hrest := ih h (fun n hn => hq n (by omega))
        simpa using hrest
      | true =>
        have hk := hq h (by omega) hhead
        have hrest : (predecessors chain span h).countP q = 0 := by
          rw [List.countP_eq_zero]
          intro time htime hbig
          rcases exists_of_mem_predecessors htime with ⟨n, hlt, -, rfl⟩
          have := hq n (by omega) hbig
          omega
        simp [hrest]

theorem aboveMedian_spikedHeaders : AboveMedian spikedHeaders := by
  intro h m hm
  by_contra hle
  have hle : (spikedHeaders h : ℤ) ≤ m := by omega
  rcases exists_of_mem_predecessors (Median.median_mem hm) with ⟨n, hlt, -, hn⟩
  have hnlt : n < h := hlt
  have hzero : ¬ h = 0 := by omega
  by_cases hspike : 128 ≤ h
  · -- all but one of the 11 entries are smaller
    have hself : spikedHeaders h = 5000 + h := by
      simp [spikedHeaders, hzero, show ¬ h = 127 by omega]
    have hcount := (Median.le_median_iff hm _).mp hle
    have hlen := length_predecessors (fun n => (spikedHeaders n : ℤ)) MEDIAN_TIME_SPAN h
    have hbig : (predecessors (fun n => (spikedHeaders n : ℤ)) MEDIAN_TIME_SPAN h).countP
        (fun time => decide ((spikedHeaders h : ℤ) ≤ time)) ≤ 1 := by
      apply countP_predecessors_le_one (k := 127)
      intro j hj hq
      by_contra hne
      have hother : spikedHeaders j ≤ 5000 + j := by
        by_cases hj0 : j = 0
        · simp [spikedHeaders, hj0]
        · simp [spikedHeaders, hj0, hne]
      simp only [hself, decide_eq_true_eq] at hq
      omega
    have hsum := List.length_eq_countP_add_countP (fun time => decide (time < (spikedHeaders h : ℤ)))
      (l := predecessors (fun n => (spikedHeaders n : ℤ)) MEDIAN_TIME_SPAN h)
    have hrest : (predecessors (fun n => (spikedHeaders n : ℤ)) MEDIAN_TIME_SPAN h).countP
        (fun time => decide ¬(decide (time < (spikedHeaders h : ℤ)) = true)) ≤ 1 := by
      simpa using hbig
    simp only [MEDIAN_TIME_SPAN] at hlen hsum hrest hcount
    omega
  · -- the headers up to the spike increase
    have hother : spikedHeaders n ≤ 5000 + n := by
      by_cases hn0 : n = 0
      · simp [spikedHeaders, hn0]
      · simp [spikedHeaders, hn0, show ¬ n = 127 by omega]
    have hself : 5000 + h ≤ spikedHeaders h := by
      by_cases hlast : h = 127
      · simp [spikedHeaders, hlast]
      · simp [spikedHeaders, hzero, hlast]
    rw [← hn] at hle
    omega

/-- On a network of raw times the purge behind the spike deletes the row. -/
def spiked : List Action := purgeThenOpen spikedHeaders 127

theorem follows_spiked : Forward.Follows regtest spikedHeaders spiked := by
  intro i block hblock
  have hall : ∀ i < 129, ((Forward.openedBlocks spiked)[i]?).map RawBlock.timestamp =
      some (spikedHeaders (regtest.startBlockIndex.toNat + i) : ℤ) := by decide +kernel
  have hlen : (Forward.openedBlocks spiked).length = 129 := by decide +kernel
  have hlt := (List.getElem?_eq_some_iff.mp hblock).1
  have htime := hall i (by omega)
  rw [hblock] at htime
  simpa using htime

/-- The next block, whose header time is back in line, would still capture for
    it. -/
theorem purge_visible_spiked : AboveMedian spikedHeaders ∧
    Forward.Follows regtest spikedHeaders spiked ∧
    (∀ time : Int, 0 ≤ time →
      gateActive (rules false).purgeGraceActivation time = true ∧
      gateActive (rules false).cancelGraceActivation time = true ∧
      gateActive (rules false).cancelGraceParentActivation time = true) ∧
    ((@Forward.run regtest (rules false) spiked (Forward.init regtest.weight)).map
      (fun s => s.draft.openAddresses)) = some [] ∧
    ((@Forward.run regtest (rules false) (neverPurging spiked) (Forward.init regtest.weight)).map
      (fun s => s.draft.openAddresses)) = some ["dispenser"] := by
  refine ⟨aboveMedian_spikedHeaders, follows_spiked, ?_, by decide +kernel, by decide +kernel⟩
  intro time htime
  simp [rules, gateActive, htime]

end Sample

end XChainDecoder
