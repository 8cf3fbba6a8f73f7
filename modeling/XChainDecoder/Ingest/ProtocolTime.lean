import XChainDecoder.Ingest.Forward
import XChainDecoder.Lib.Median

/-! # Protocol time along a forward run

    The times a block resolves are read from the stored rows below it. Along a
    forward run these rows never change, so they are the headers of the chain
    that was fed to the decoder, cut off at the start height. On a network whose
    protocol time is the median time past, it then never decreases once a full
    window is stored, and the parent's time is resolved a second time to the same
    value.

    **Main theorem.** `Forward.protocolTime_monotone_and_parent`. -/

namespace XChainDecoder

/-! ## Section 1: Header times -/

/-- The `span` header times below height `h`, newest first, as far down as
    height 0. -/
def predecessors (chain : ℕ → ℤ) : Nat → ℕ → List ℤ
  | 0,        _     => []
  | _ + 1,    0     => []
  | span + 1, h + 1 => chain h :: predecessors chain span h

@[simp] theorem predecessors_zero (chain : ℕ → ℤ) (h : ℕ) : predecessors chain 0 h = [] := by
  cases h <;> rfl

@[simp] theorem predecessors_genesis (chain : ℕ → ℤ) (span : Nat) :
    predecessors chain span 0 = [] := by
  cases span <;> rfl

@[simp] theorem predecessors_succ (chain : ℕ → ℤ) (span : Nat) (h : ℕ) :
    predecessors chain (span + 1) (h + 1) = chain h :: predecessors chain span h := rfl

theorem length_predecessors (chain : ℕ → ℤ) (span : Nat) (h : ℕ) :
    (predecessors chain span h).length = min span h := by
  induction span generalizing h with
  | zero => simp
  | succ span ih =>
    cases h with
    | zero => simp
    | succ h => simp [ih, Nat.succ_min_succ]

theorem take_predecessors (chain : ℕ → ℤ) (n span : Nat) (h : ℕ) :
    (predecessors chain span h).take n = predecessors chain (min n span) h := by
  induction n generalizing span h with
  | zero => simp
  | succ n ih =>
    cases span with
    | zero => simp
    | succ span =>
      cases h with
      | zero => simp
      | succ h => simp [ih, Nat.succ_min_succ]

theorem predecessors_sublist (chain : ℕ → ℤ) {n span : Nat} (hle : n ≤ span) (h : ℕ) :
    (predecessors chain n h).Sublist (predecessors chain span h) := by
  have htake := take_predecessors chain n span h
  rw [Nat.min_eq_left hle] at htake
  rw [← htake]
  exact List.take_sublist _ _

/-- An entry of a window is the header time of a height in it. -/
theorem exists_of_mem_predecessors {chain : ℕ → ℤ} {span : Nat} {h : ℕ} {time : ℤ}
    (hmem : time ∈ predecessors chain span h) : ∃ n, n < h ∧ h ≤ n + span ∧ chain n = time := by
  induction span generalizing h with
  | zero => simp at hmem
  | succ span ih =>
    cases h with
    | zero => simp at hmem
    | succ h =>
      rcases List.mem_cons.mp hmem with rfl | hmem
      · exact ⟨h, by omega, by omega, rfl⟩
      · rcases ih hmem with ⟨n, hlt, hle, htime⟩
        exact ⟨n, by omega, by omega, htime⟩

/-- Every header time exceeds the median of its 11 predecessors, of as many as
    there are. Header times are unsigned. -/
def AboveMedian (chain : ℕ → ℕ) : Prop :=
  ∀ h m, Median.median (predecessors (fun n => (chain n : ℤ)) MEDIAN_TIME_SPAN h) = some m →
    m < chain h

/-- Only the genesis header may carry the time 0. -/
theorem AboveMedian.pos {chain : ℕ → ℕ} (hchain : AboveMedian chain) {h : ℕ} (hh : 0 < h) :
    0 < chain h := by
  have hne : predecessors (fun n => (chain n : ℤ)) MEDIAN_TIME_SPAN h ≠ [] := by
    intro hnil
    have hlen := length_predecessors (fun n => (chain n : ℤ)) MEDIAN_TIME_SPAN h
    rw [hnil] at hlen
    simp only [List.length_nil, MEDIAN_TIME_SPAN] at hlen
    omega
  rcases Median.exists_median hne with ⟨m, hm⟩
  rcases exists_of_mem_predecessors (Median.median_mem hm) with ⟨n, -, -, hn⟩
  have hlt := hchain h m hm
  omega

/-- A window that leaves the genesis header out is kept whole by the filter. -/
theorem AboveMedian.filter_predecessors {chain : ℕ → ℕ} (hchain : AboveMedian chain)
    {span : Nat} {h : ℕ} (hh : span < h) :
    (predecessors (fun n => (chain n : ℤ)) span h).filter (fun time => 0 < time) =
      predecessors (fun n => (chain n : ℤ)) span h := by
  rw [List.filter_eq_self]
  intro time htime
  rcases exists_of_mem_predecessors htime with ⟨n, -, hle, rfl⟩
  have hpos := hchain.pos (show 0 < n by omega)
  simpa using hpos

/-! ## Section 2: The median time past -/

theorem medianTimePast_eq (times : List Int) :
    medianTimePast times = Median.median ((times.take MEDIAN_TIME_SPAN).filter (fun time => 0 < time)) := by
  simp [medianTimePast, Median.median]

theorem medianTimePast_take (times : List Int) :
    medianTimePast (times.take MEDIAN_TIME_SPAN) = medianTimePast times := by
  simp [medianTimePast, List.take_take]

theorem protocolTime_take (rules : Rules) (rawBlockTime : Int) (times : List Int) :
    protocolTime rules rawBlockTime (times.take MEDIAN_TIME_SPAN) =
      protocolTime rules rawBlockTime times := by
  simp [protocolTime, medianTimePast_take]

/-- Protocol time never runs ahead of the raw stamp. -/
theorem protocolTime_le (rules : Rules) (rawBlockTime : Int) (times : List Int) :
    protocolTime rules rawBlockTime times ≤ rawBlockTime := by
  unfold protocolTime
  cases hmtp : rules.protocolTimeMtp with
  | false => simp
  | true =>
    cases medianTimePast times with
    | none => simp
    | some mtp => simp

theorem protocolTime_of_median {rules : Rules} (hmtp : rules.protocolTimeMtp = true)
    {rawBlockTime m : Int} {times : List Int} (h : medianTimePast times = some m) :
    protocolTime rules rawBlockTime times = min m rawBlockTime := by
  simp [protocolTime, hmtp, h]

/-- The step of the median time past: the window slides over one header that
    itself exceeds the median of its predecessors. -/
theorem AboveMedian.protocolTime_le_succ {chain : ℕ → ℕ} (hchain : AboveMedian chain)
    {rules : Rules} (hmtp : rules.protocolTimeMtp = true) {h : ℕ} (hh : MEDIAN_TIME_SPAN ≤ h) :
    protocolTime rules (chain h) (predecessors (fun n => (chain n : ℤ)) MEDIAN_TIME_SPAN h) ≤
      protocolTime rules (chain (h + 1))
        (predecessors (fun n => (chain n : ℤ)) MEDIAN_TIME_SPAN (h + 1)) := by
  set times : ℕ → ℤ := fun n => (chain n : ℤ) with htimes
  -- the window of `h` may still hold the genesis header, the next one does not
  let old := (predecessors times MEDIAN_TIME_SPAN h).filter (fun time => 0 < time)
  have hnew : (predecessors times MEDIAN_TIME_SPAN (h + 1)).filter (fun time => 0 < time) =
      times h :: predecessors times 10 h := by
    rw [hchain.filter_predecessors (by omega)]
    rfl
  have hkept : (predecessors times 10 h).Sublist old := by
    have hten : (predecessors times 10 h).filter (fun time => 0 < time) = predecessors times 10 h :=
      hchain.filter_predecessors (by simp only [MEDIAN_TIME_SPAN] at hh; omega)
    rw [← hten]
    exact (predecessors_sublist times (by decide) h).filter _
  have hlen : old.length ≤ (times h :: predecessors times 10 h).length := by
    have hfilter : old.length ≤ (predecessors times MEDIAN_TIME_SPAN h).length :=
      List.length_filter_le _ _
    have hten := length_predecessors times 10 h
    rw [length_predecessors] at hfilter
    simp only [MEDIAN_TIME_SPAN] at hh hfilter
    simp only [List.length_cons, hten]
    omega
  have hne : old ≠ [] := by
    intro hnil
    have hsub := hkept.length_le
    rw [hnil, length_predecessors] at hsub
    simp only [List.length_nil, MEDIAN_TIME_SPAN] at hsub hh
    omega
  rcases Median.exists_median hne with ⟨m, hm⟩
  rcases Median.exists_median (List.cons_ne_nil (times h) (predecessors times 10 h)) with ⟨m', hm'⟩
  -- both terms of the minimum stay at or above the old protocol time
  have hslide : min m (chain h) ≤ m' :=
    Median.le_median_of_slide hm hm' rfl hkept hlen (min_le_left _ _) (min_le_right _ _)
  have hraw : m' < chain (h + 1) := by
    apply hchain (h + 1) m'
    rw [← hm']
    rfl
  have hold : medianTimePast (predecessors times MEDIAN_TIME_SPAN h) = some m := by
    rw [medianTimePast_eq, take_predecessors, Nat.min_self]
    exact hm
  have hnext : medianTimePast (predecessors times MEDIAN_TIME_SPAN (h + 1)) = some m' := by
    rw [medianTimePast_eq, take_predecessors, Nat.min_self, hnew]
    exact hm'
  rw [protocolTime_of_median hmtp hold, protocolTime_of_median hmtp hnext]
  exact le_min hslide (hslide.trans hraw.le)

/-! ## Section 3: Stored header times -/

namespace Tables

variable {weight : String → String} {t t' : Tables weight}

theorem blockTime_getBlockByIndex (t : Tables weight) (n : Int) :
    (t.getBlockByIndex n).map Block.blockTime = t.toChainRows.blockTimeAt n := by
  unfold getBlockByIndex ChainRows.blockTimeAt
  cases t.blocks.find? (fun b => b.blockIndex = n) with
  | none => rfl
  | some b => rfl

/-- The walk back over the stored rows, by the times it meets. -/
theorem blockTimesBelow_succ (t : Tables weight) (span : Nat) {n : Int} (hn : 0 ≤ n) :
    t.blockTimesBelow (span + 1) n =
      match t.toChainRows.blockTimeAt n with
      | none      => []
      | some time => time :: t.blockTimesBelow span (n - 1) := by
  have htime := t.blockTime_getBlockByIndex n
  rw [blockTimesBelow, if_neg (by omega)]
  cases hb : t.getBlockByIndex n with
  | none =>
    rw [hb, Option.map_none] at htime
    simp [← htime]
  | some b =>
    rw [hb, Option.map_some] at htime
    simp [← htime]

/-- The walk reads the rows below its start only. -/
theorem blockTimesBelow_congr (span : Nat) {n : Int}
    (h : ∀ m ≤ n, t'.toChainRows.blockTimeAt m = t.toChainRows.blockTimeAt m) :
    t'.blockTimesBelow span n = t.blockTimesBelow span n := by
  induction span generalizing n with
  | zero => rfl
  | succ span ih =>
    by_cases hn : n < 0
    · simp [blockTimesBelow, hn]
    · have hrest := ih (n := n - 1) (fun m hm => h m (by omega))
      rw [blockTimesBelow_succ t' span (by omega), blockTimesBelow_succ t span (by omega),
        h n le_rfl, hrest]

/-- Rows that hold the headers of a chain from `start` on are read back as its
    headers, cut off at `start`. -/
theorem blockTimesBelow_eq_predecessors (chain : ℕ → ℤ) {start i : ℕ} (span : Nat)
    (hstored : ∀ j < i, t.toChainRows.blockTimeAt ((start + j : ℕ) : Int) = some (chain (start + j)))
    (hbelow : ∀ n : Int, n < start → t.toChainRows.blockTimeAt n = none) :
    t.blockTimesBelow span ((start + i : ℕ) - 1 : Int) =
      predecessors chain (min span i) (start + i) := by
  induction span generalizing i with
  | zero => simp [blockTimesBelow]
  | succ span ih =>
    cases i with
    | zero =>
      -- nothing is stored below the start height
      by_cases hstart : ((start + 0 : ℕ) - 1 : Int) < 0
      · rw [Tables.blockTimesBelow, if_pos hstart]
        simp
      · rw [blockTimesBelow_succ t span (by omega), hbelow _ (by omega)]
        simp
    | succ i =>
      have hprev := ih (i := i) (fun j hj => hstored j (by omega))
      have hcast : ((start + (i + 1) : ℕ) - 1 : Int) = ((start + i : ℕ) : Int) := by omega
      rw [hcast, blockTimesBelow_succ t span (by omega), hstored i (by omega)]
      rw [Nat.succ_min_succ, show start + (i + 1) = (start + i) + 1 from rfl, predecessors_succ,
        ← hprev]

end Tables

namespace ChainRows

variable {c : ChainRows} {n m : Int}

theorem blockTimeAt_of_not_mem (h : n ∉ c.heights) : c.blockTimeAt n = none := by
  unfold blockTimeAt
  rw [Option.map_eq_none_iff, List.find?_eq_none]
  intro b hb hn
  apply h
  rw [← (by simpa using hn : b.blockIndex = n)]
  exact List.mem_map_of_mem hb

theorem blockTimeAt_addBlock (b : BlockRow) :
    (c.addBlock b).blockTimeAt n =
      (c.blockTimeAt n).or (if b.blockIndex = n then some b.blockTime else none) := by
  unfold blockTimeAt addBlock
  rw [List.find?_append, Option.map_or]
  by_cases hb : b.blockIndex = n
  · simp [hb]
  · simp [hb]

theorem blockTimeAt_congr {c' : ChainRows} (h : c'.blocks = c.blocks) :
    c'.blockTimeAt n = c.blockTimeAt n := by
  unfold blockTimeAt
  rw [h]

end ChainRows

/-! ## Section 4: The rows a forward run leaves -/

namespace Forward

variable {cfg : Config} {rules : Rules} {a : Action} {as : List Action}
  {s s' : Forward cfg.weight}

/-- What a step makes of the block rows: an open adds the row of the next height,
    every other action leaves them alone. -/
theorem Step.blocks (h : Step rules s a s') :
    (s'.resolved = s.resolved ∧ s'.draft.tables.blocks = s.draft.tables.blocks) ∨
    ∃ times row, s'.resolved = s.resolved ++ [times] ∧
      times = blockTimeContext rules times.rawBlockTime (s.draft.tables.blockTimesBelow
        (historySpan rules times.rawBlockTime) (s.nextBlockHeight cfg - 1)) ∧
      row.blockIndex = s.nextBlockHeight cfg ∧ row.blockTime = times.rawBlockTime ∧
      s'.draft.tables.blocks = s.draft.tables.blocks ++ [row] := by
  cases h with
  | @openBlock quarantined hash block lastTxIndex d hcurrent hopen =>
    right
    rcases Draft.insertBlock_of_openBlock hopen with ⟨t₁, hinsert, hchanges⟩
    have hblocks := hchanges.blocks_eq
    unfold Tables.insertBlock at hinsert
    dsimp only at hinsert
    by_cases htaken : s.nextBlockHeight cfg ∈ s.draft.tables.heights
    · simp [htaken] at hinsert
    · rw [if_neg htaken, Option.some.injEq] at hinsert
      rw [← hinsert] at hblocks
      exact ⟨_, _, rfl, rfl, rfl, rfl, hblocks⟩
  | ingestTransaction hcurrent htx hingest =>
    left
    exact ⟨rfl, (Draft.changes_ingestTransaction rfl hingest).blocks_eq⟩
  | @closeBlock b hcurrent hall =>
    left
    refine ⟨rfl, ?_⟩
    by_cases hgate : gateActive rules.expiryRealignActivation b.head.time = true
    · simp [closed, Draft.closeBlock, hgate, Draft.write, Tables.deleteOpenDispensers,
        ChainRows.deleteOpenDispensers]
    · simp [closed, Draft.closeBlock, hgate]
  | purgeDispensers hcurrent hsafe => exact .inl ⟨rfl, rfl⟩
  | purgeUndo hcurrent hsafe => exact .inl ⟨rfl, rfl⟩

/-- The stored header times are those of the blocks the run opened. -/
theorem blockTimeAt_eq (h : run rules as (init cfg.weight) = some s) (n : Int) :
    s.draft.tables.toChainRows.blockTimeAt n =
      (s.timesAt cfg n).map BlockTimeContext.rawBlockTime := by
  refine reachable_invariant (P := fun s => ∀ n, s.draft.tables.toChainRows.blockTimeAt n =
    (s.timesAt cfg n).map BlockTimeContext.rawBlockTime) h ?_ ?_ n
  · intro n
    simp [init, Tables.fresh, ChainRows.blockTimeAt, timesAt]
  · intro a s s' hstep ih n
    rcases hstep.blocks with ⟨hresolved, hblocks⟩ | ⟨times, row, hresolved, -, hindex, htime, hblocks⟩
    · rw [ChainRows.blockTimeAt_congr hblocks, ih n, timesAt_congr hresolved]
    · have hadd : s'.draft.tables.toChainRows.blockTimeAt n =
          (s.draft.tables.toChainRows.addBlock row).blockTimeAt n :=
        ChainRows.blockTimeAt_congr hblocks
      have hnone : s.timesAt cfg (s.nextBlockHeight cfg) = none := by
        simp [timesAt, nextBlockHeight]
      rw [hadd, ChainRows.blockTimeAt_addBlock, ih n, hindex, htime, timesAt_append hresolved]
      by_cases hn : n = s.nextBlockHeight cfg
      · simp [hn, hnone]
      · simp [hn, Ne.symm hn]

/-- A walk that starts below the next height reads the same before and after a
    step. -/
theorem Step.blockTimesBelow (h : Step rules s a s') (span : Nat) {n : Int}
    (hn : n < s.nextBlockHeight cfg) :
    s'.draft.tables.blockTimesBelow span n = s.draft.tables.blockTimesBelow span n := by
  apply Tables.blockTimesBelow_congr
  intro m hm
  rcases h.blocks with ⟨-, hblocks⟩ | ⟨times, row, -, -, hindex, -, hblocks⟩
  · exact ChainRows.blockTimeAt_congr hblocks
  · have hadd : s'.draft.tables.toChainRows.blockTimeAt m =
        (s.draft.tables.toChainRows.addBlock row).blockTimeAt m :=
      ChainRows.blockTimeAt_congr hblocks
    have hne : ¬ row.blockIndex = m := by omega
    rw [hadd, ChainRows.blockTimeAt_addBlock, if_neg hne, Option.or_none]

/-- What a block resolved is what it would resolve on the present rows. -/
theorem resolved_eq (h : run rules as (init cfg.weight) = some s) {i : Nat}
    {times : BlockTimeContext} (hi : s.resolved[i]? = some times) :
    times = blockTimeContext rules times.rawBlockTime (s.draft.tables.blockTimesBelow
      (historySpan rules times.rawBlockTime) (cfg.startBlockIndex + i - 1)) := by
  revert i times
  refine reachable_invariant (P := fun s => ∀ {i : Nat} {times : BlockTimeContext},
    s.resolved[i]? = some times → times = blockTimeContext rules times.rawBlockTime
      (s.draft.tables.blockTimesBelow (historySpan rules times.rawBlockTime)
        (cfg.startBlockIndex + i - 1))) h ?_ ?_
  · intro i times hi
    simp [init] at hi
  · intro a s s' hstep ih i times hi
    -- whether the block is old or just opened, its walk starts below the next height
    have hwalk : i ≤ s.resolved.length → s'.draft.tables.blockTimesBelow
        (historySpan rules times.rawBlockTime) (cfg.startBlockIndex + i - 1) =
        s.draft.tables.blockTimesBelow
          (historySpan rules times.rawBlockTime) (cfg.startBlockIndex + i - 1) := by
      intro hle
      apply hstep.blockTimesBelow
      unfold nextBlockHeight
      omega
    rcases hstep.blocks with ⟨hresolved, -⟩ | ⟨times', row, hresolved, htimes, -⟩
    · rw [hresolved] at hi
      have hlt := (List.getElem?_eq_some_iff.mp hi).1
      rw [hwalk hlt.le]
      exact ih hi
    · by_cases hold : i < s.resolved.length
      · rw [hresolved, List.getElem?_append_left hold] at hi
        rw [hwalk hold.le]
        exact ih hi
      · have hlast : i = s.resolved.length := by
          have hlt := (List.getElem?_eq_some_iff.mp hi).1
          simp only [hresolved, List.length_append, List.length_singleton] at hlt
          omega
        rw [hlast, hresolved] at hi
        have heq : times' = times := by simpa using hi
        rw [hwalk hlast.le, hlast, ← heq]
        exact htimes

/-! ## Section 5: Protocol time along the chain -/

/-- The blocks a list of actions opens. -/
def openedBlocks : List Action → List RawBlock
  | []                              => []
  | .openBlock _ _ block _ :: as => block :: openedBlocks as
  | _ :: as                         => openedBlocks as

/-- The blocks are those of the chain, from the start height on. -/
def Follows (cfg : Config) (chain : ℕ → ℕ) (as : List Action) : Prop :=
  ∀ i block, (openedBlocks as)[i]? = some block →
    block.timestamp = (chain (cfg.startBlockIndex.toNat + i) : ℤ)

theorem resolved_eq_openedBlocks (h : run rules as s = some s') :
    s'.resolved.map BlockTimeContext.rawBlockTime =
      s.resolved.map BlockTimeContext.rawBlockTime ++ (openedBlocks as).map RawBlock.timestamp := by
  induction as generalizing s with
  | nil =>
    simp only [run_nil, Option.some.injEq] at h
    simp [openedBlocks, h]
  | cons a as ih =>
    rcases Option.bind_eq_some_iff.mp h with ⟨s₁, hstep, hrest⟩
    rw [ih hrest]
    cases step_cases hstep with
    | openBlock hcurrent hopen => simp [opened, openedBlocks, Draft.timesOf, blockTimeContext]
    | ingestTransaction hcurrent htx hingest => simp [ingested, openedBlocks]
    | closeBlock hcurrent hall => simp [closed, openedBlocks]
    | purgeDispensers hcurrent hsafe => simp [setRows, openedBlocks]
    | purgeUndo hcurrent hsafe => simp [setRows, openedBlocks]

/-- The raw time of a block is its header time. -/
theorem rawBlockTime_of_follows {chain : ℕ → ℕ} (h : run rules as (init cfg.weight) = some s)
    (hfed : Follows cfg chain as) {i : Nat} {times : BlockTimeContext}
    (hi : s.resolved[i]? = some times) :
    times.rawBlockTime = chain (cfg.startBlockIndex.toNat + i) := by
  have hmap := resolved_eq_openedBlocks h
  simp only [init, List.map_nil, List.nil_append] at hmap
  have hraw : (s.resolved.map BlockTimeContext.rawBlockTime)[i]? = some times.rawBlockTime := by
    simp [hi]
  rw [hmap, List.getElem?_map, Option.map_eq_some_iff] at hraw
  rcases hraw with ⟨block, hblock, hraw⟩
  rw [← hraw]
  exact hfed i block hblock

/-- The walk back from the block at `i` meets the headers of the chain. -/
theorem blockTimesBelow_of_follows {chain : ℕ → ℕ} (h : run rules as (init cfg.weight) = some s)
    (hfed : Follows cfg chain as) {i : Nat} (hi : i ≤ s.resolved.length) (span : Nat) :
    s.draft.tables.blockTimesBelow span (cfg.startBlockIndex + i - 1) =
      predecessors (fun n => (chain n : ℤ)) (min span i) (cfg.startBlockIndex.toNat + i) := by
  have hstart : (cfg.startBlockIndex.toNat : Int) = cfg.startBlockIndex :=
    Int.toNat_of_nonneg cfg.start_nonneg
  have hstored : ∀ j < i, s.draft.tables.toChainRows.blockTimeAt
      ((cfg.startBlockIndex.toNat + j : ℕ) : Int) =
      some (chain (cfg.startBlockIndex.toNat + j) : ℤ) := by
    intro j hj
    have hlt : j < s.resolved.length := by omega
    have hraw := rawBlockTime_of_follows h hfed (List.getElem?_eq_getElem hlt)
    have hnot : ¬ ((cfg.startBlockIndex.toNat + j : ℕ) : Int) < cfg.startBlockIndex := by omega
    have hindex : (((cfg.startBlockIndex.toNat + j : ℕ) : Int) - cfg.startBlockIndex).toNat = j := by
      omega
    rw [blockTimeAt_eq h, timesAt, if_neg hnot, hindex, List.getElem?_eq_getElem hlt]
    simp [hraw]
  have hbelow : ∀ n : Int, n < cfg.startBlockIndex.toNat →
      s.draft.tables.toChainRows.blockTimeAt n = none := by
    intro n hn
    rw [blockTimeAt_eq h, timesAt, if_pos (by omega)]
    rfl
  have hwalk := Tables.blockTimesBelow_eq_predecessors (fun n => (chain n : ℤ)) span
    hstored hbelow
  rw [← hwalk]
  congr 1
  omega

/-- The protocol time of a block, by the headers of the chain. -/
theorem protocolBlockTime_of_follows {chain : ℕ → ℕ} (hmtp : rules.protocolTimeMtp = true)
    (h : run rules as (init cfg.weight) = some s) (hfed : Follows cfg chain as) {i : Nat}
    {times : BlockTimeContext} (hi : s.resolved[i]? = some times) :
    times.protocolBlockTime = protocolTime rules (chain (cfg.startBlockIndex.toNat + i))
      (predecessors (fun n => (chain n : ℤ)) (min MEDIAN_TIME_SPAN i)
        (cfg.startBlockIndex.toNat + i)) := by
  have hlt := (List.getElem?_eq_some_iff.mp hi).1
  have htimes := congrArg BlockTimeContext.protocolBlockTime (resolved_eq h hi)
  rw [blockTimesBelow_of_follows h hfed hlt.le] at htimes
  rw [htimes, rawBlockTime_of_follows h hfed hi]
  -- the walk reads 11 rows, or 12 where the parent's time is needed too
  have hspan : min MEDIAN_TIME_SPAN
      (min (historySpan rules (chain (cfg.startBlockIndex.toNat + i) : ℤ)) i) =
      min MEDIAN_TIME_SPAN i := by
    simp only [historySpan, hmtp, if_true]
    omega
  simp only [blockTimeContext]
  rw [take_predecessors, hspan]

/-- Once a full window is stored, the next block's protocol time is no earlier. -/
theorem protocolBlockTime_le_succ {chain : ℕ → ℕ} (hmtp : rules.protocolTimeMtp = true)
    (hchain : AboveMedian chain) (hfed : Follows cfg chain as)
    (h : run rules as (init cfg.weight) = some s) {i : Nat} {parent times : BlockTimeContext}
    (hparent : s.resolved[i]? = some parent) (htimes : s.resolved[i + 1]? = some times)
    (hfull : MEDIAN_TIME_SPAN ≤ i) : parent.protocolBlockTime ≤ times.protocolBlockTime := by
  rw [protocolBlockTime_of_follows hmtp h hfed hparent,
    protocolBlockTime_of_follows hmtp h hfed htimes, Nat.min_eq_left hfull,
    Nat.min_eq_left (by omega)]
  exact hchain.protocolTime_le_succ hmtp (by omega)

/-- Over any number of blocks. -/
theorem protocolBlockTime_le {chain : ℕ → ℕ} (hmtp : rules.protocolTimeMtp = true)
    (hchain : AboveMedian chain) (hfed : Follows cfg chain as)
    (h : run rules as (init cfg.weight) = some s) {i j : Nat} {earlier times : BlockTimeContext}
    (hearlier : s.resolved[i]? = some earlier) (htimes : s.resolved[j]? = some times)
    (hfull : MEDIAN_TIME_SPAN ≤ i) (hij : i ≤ j) :
    earlier.protocolBlockTime ≤ times.protocolBlockTime := by
  induction j, hij using Nat.le_induction generalizing times with
  | base =>
    rw [hearlier, Option.some.injEq] at htimes
    rw [htimes]
  | succ j hle ih =>
    have hlt : j < s.resolved.length := by
      have hlast := (List.getElem?_eq_some_iff.mp htimes).1
      omega
    have hmiddle := List.getElem?_eq_getElem hlt
    exact (ih hmiddle).trans
      (protocolBlockTime_le_succ hmtp hchain hfed h hmiddle htimes (hfull.trans hle))

/-- Where the parent floor is active, the parent's time is the one its own pass
    resolved. -/
theorem parentProtocolTime_eq {chain : ℕ → ℕ} (hmtp : rules.protocolTimeMtp = true)
    (hfed : Follows cfg chain as) (h : run rules as (init cfg.weight) = some s) {i : Nat}
    {parent times : BlockTimeContext} (hparent : s.resolved[i]? = some parent)
    (htimes : s.resolved[i + 1]? = some times)
    (hgate : gateActive rules.cancelGraceParentActivation times.rawBlockTime = true ∨
      gateActive rules.cancelGraceParentActivation times.protocolBlockTime = true) :
    times.parentProtocolTime = some parent.protocolBlockTime := by
  have hraw : gateActive rules.cancelGraceParentActivation times.rawBlockTime = true := by
    rcases hgate with hgate | hgate
    · exact hgate
    · have hle : times.protocolBlockTime ≤ times.rawBlockTime := by
        rw [resolved_eq h htimes]
        exact protocolTime_le _ _ _
      exact gateActive_mono hle hgate
  have hlt := (List.getElem?_eq_some_iff.mp htimes).1
  have hcontext := congrArg BlockTimeContext.parentProtocolTime (resolved_eq h htimes)
  -- the walk reads one row more, the parent's, before the window of the parent
  have hspan : min (historySpan rules times.rawBlockTime) (i + 1) = min MEDIAN_TIME_SPAN i + 1 := by
    simp only [historySpan, hmtp, hraw, if_true]
    omega
  rw [blockTimesBelow_of_follows h hfed hlt.le, hspan, ← Nat.add_assoc, predecessors_succ] at hcontext
  rw [hcontext, protocolBlockTime_of_follows hmtp h hfed hparent]
  rfl

/-- **Main theorem.** Along every forward run over the headers of a chain, on a
    network whose protocol time is the median time past: the protocol time never
    decreases from one block to the next once 11 predecessors are stored, and
    where the parent floor is active, the parent's time is the one its own pass
    resolved. -/
theorem protocolTime_monotone_and_parent {chain : ℕ → ℕ} (hmtp : rules.protocolTimeMtp = true)
    (hchain : AboveMedian chain) (hfed : Follows cfg chain as)
    (h : run rules as (init cfg.weight) = some s) {i : Nat} {parent times : BlockTimeContext}
    (hparent : s.resolved[i]? = some parent) (htimes : s.resolved[i + 1]? = some times) :
    (MEDIAN_TIME_SPAN ≤ i → parent.protocolBlockTime ≤ times.protocolBlockTime) ∧
    (gateActive rules.cancelGraceParentActivation times.rawBlockTime = true ∨
        gateActive rules.cancelGraceParentActivation times.protocolBlockTime = true →
      times.parentProtocolTime = some parent.protocolBlockTime) :=
  ⟨protocolBlockTime_le_succ hmtp hchain hfed h hparent htimes,
    parentProtocolTime_eq hmtp hfed h hparent htimes⟩

end Forward

namespace Sample

/-- A header every ten minutes. -/
def headers (n : ℕ) : ℕ := 600 * (n + 1)

/-- The first `n` blocks of these headers, all empty. -/
def emptyBlocks : ℕ → List Action
  | 0     => []
  | n + 1 => emptyBlocks n ++ ingestAll (headers n) [] (-1)

/-- Headers that increase exceed the median below them. -/
theorem aboveMedian_headers : AboveMedian headers := by
  intro h m hm
  rcases exists_of_mem_predecessors (Median.median_mem hm) with ⟨n, hlt, -, hn⟩
  rw [← hn]
  simp only [headers]
  omega

theorem run_emptyBlocks :
    (@Forward.run config (rules true) (emptyBlocks 13) (Forward.init config.weight)).isSome = true := by
  decide +kernel

theorem follows_emptyBlocks : Forward.Follows config headers (emptyBlocks 13) := by
  intro i block hblock
  have hall : ∀ i < 13, ((Forward.openedBlocks (emptyBlocks 13))[i]?).map RawBlock.timestamp =
      some (headers (config.startBlockIndex.toNat + i) : ℤ) := by decide +kernel
  have hlen : (Forward.openedBlocks (emptyBlocks 13)).length = 13 := by decide +kernel
  have hlt := (List.getElem?_eq_some_iff.mp hblock).1
  have htime := hall i (by omega)
  rw [hblock] at htime
  simpa using htime

/-- The state behind the 13 blocks. -/
def emptyRun : Forward config.weight :=
  (@Forward.run config (rules true) (emptyBlocks 13) (Forward.init config.weight)).get run_emptyBlocks

theorem protocolTime_emptyRun : ∃ parent times,
    emptyRun.resolved[11]? = some parent ∧ emptyRun.resolved[12]? = some times ∧
      parent.protocolBlockTime ≤ times.protocolBlockTime ∧
      times.parentProtocolTime = some parent.protocolBlockTime := by
  have hparent : emptyRun.resolved[11]? = some ⟨7200, 3600, some 3600⟩ := by decide +kernel
  have htimes : emptyRun.resolved[12]? = some ⟨7800, 4200, some 3600⟩ := by decide +kernel
  have hrun : @Forward.run config (rules true) (emptyBlocks 13) (Forward.init config.weight) =
      some emptyRun := (Option.some_get run_emptyBlocks).symm
  have h := Forward.protocolTime_monotone_and_parent rfl aboveMedian_headers follows_emptyBlocks
    hrun hparent htimes
  exact ⟨_, _, hparent, htimes, h.1 (by decide), h.2 (.inl (by decide))⟩

end Sample

end XChainDecoder
