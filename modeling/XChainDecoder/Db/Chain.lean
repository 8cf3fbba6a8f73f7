import XChainDecoder.Db.RowChange

/-! # The stored chain

    The stored heights are an interval from the start height to the tip, each
    block's hash is known, and each block names the hash of the one below it.
    An empty store has its tip just below the start height, which is also where
    the parse loop puts its cursor. -/

namespace XChainDecoder

namespace ChainRows

/-! ## Section 1: The tip -/

variable {c c' : ChainRows} {start n : Int}

theorem le_getLastBlockIndex {h : Int} (hh : h ∈ c.heights) : h ≤ c.getLastBlockIndex := by
  have hmax : ∀ l : List Int, h ∈ l → h ≤ l.foldr max (-1) := by
    intro l
    induction l with
    | nil => intro hl; cases hl
    | cons a l ih =>
      intro hl
      rcases List.mem_cons.mp hl with rfl | hl
      · exact Int.le_max_left _ _
      · exact Int.le_trans (ih hl) (Int.le_max_right _ _)
  exact hmax _ hh

theorem getLastBlockIndex_cases (c : ChainRows) :
    c.getLastBlockIndex = -1 ∨ c.getLastBlockIndex ∈ c.heights := by
  have hmax : ∀ l : List Int, l.foldr max (-1) = -1 ∨ l.foldr max (-1) ∈ l := by
    intro l
    induction l with
    | nil => exact .inl rfl
    | cons a l ih =>
      have hm : max a (l.foldr max (-1)) = a ∨ max a (l.foldr max (-1)) = l.foldr max (-1) := by
        omega
      rcases hm with hm | hm
      · exact .inr (by rw [List.foldr_cons, hm]; exact List.mem_cons_self)
      · rw [List.foldr_cons, hm]
        exact ih.imp_right (List.mem_cons_of_mem a)
  exact hmax _

/-- The stored tip; an empty chain ends just below the start height. -/
def chainTip (start : Int) (c : ChainRows) : Int := max c.getLastBlockIndex (start - 1)

theorem chainTip_congr (h : c'.blocks = c.blocks) : c'.chainTip start = c.chainTip start := by
  unfold chainTip getLastBlockIndex
  rw [h]

/-- The stored heights are exactly those from `start` to the tip. -/
def Interval (start : Int) (c : ChainRows) : Prop :=
  ∀ h, h ∈ c.heights ↔ start ≤ h ∧ h ≤ c.chainTip start

/-- The tip is read off the heights. -/
theorem chainTip_eq (hstart : 0 ≤ start) {tip : Int} (htip : start - 1 ≤ tip)
    (hh : ∀ h, h ∈ c.heights ↔ start ≤ h ∧ h ≤ tip) : c.chainTip start = tip := by
  unfold chainTip
  have hup : c.getLastBlockIndex ≤ max tip (start - 1) := by
    rcases c.getLastBlockIndex_cases with h | h
    · omega
    · have := (hh _).mp h
      omega
  rcases Int.lt_or_le tip start with hlt | hle
  · omega
  · have := le_getLastBlockIndex ((hh tip).mpr ⟨hle, Int.le_refl tip⟩)
    omega

theorem interval_of_heights (hstart : 0 ≤ start) (tip : Int) (htip : start - 1 ≤ tip)
    (hh : ∀ h, h ∈ c.heights ↔ start ≤ h ∧ h ≤ tip) : c.Interval start := by
  intro h
  rw [chainTip_eq hstart htip hh]
  exact hh h

theorem start_sub_one_le_chainTip (start : Int) (c : ChainRows) : start - 1 ≤ c.chainTip start :=
  Int.le_max_right _ _

/-- The last stored height, where there is one at all. -/
theorem getLastBlockIndex_eq (hlast : start ≤ c.getLastBlockIndex ∨ start ≤ c.chainTip start) :
    c.getLastBlockIndex = c.chainTip start := by
  unfold chainTip at *
  omega

section Changes

/-- A block on top of the tip. -/
theorem chainTip_push (h : c.Interval start) (hstart : 0 ≤ start)
    (hn : n = c.chainTip start + 1)
    (hh : ∀ i, i ∈ c'.heights ↔ i ∈ c.heights ∨ i = n) : c'.chainTip start = n := by
  have hlo := start_sub_one_le_chainTip start c
  refine chainTip_eq hstart (by omega) (fun i => ?_)
  rw [hh, h i]
  omega

theorem Interval.push (h : c.Interval start) (hstart : 0 ≤ start)
    (hn : n = c.chainTip start + 1)
    (hh : ∀ i, i ∈ c'.heights ↔ i ∈ c.heights ∨ i = n) : c'.Interval start := by
  have hlo := start_sub_one_le_chainTip start c
  refine interval_of_heights hstart n (by omega) (fun i => ?_)
  rw [hh, h i]
  omega

/-- The tip block gone. -/
theorem chainTip_pop (h : c.Interval start) (hstart : 0 ≤ start)
    (hn : n = c.getLastBlockIndex) (hge : start ≤ n)
    (hh : ∀ i, i ∈ c'.heights ↔ i ∈ c.heights ∧ i ≠ n) :
    c'.chainTip start = c.chainTip start - 1 := by
  have htip := getLastBlockIndex_eq (.inl (hn ▸ hge))
  refine chainTip_eq hstart (by omega) (fun i => ?_)
  rw [hh, h i]
  omega

theorem Interval.pop (h : c.Interval start) (hstart : 0 ≤ start)
    (hn : n = c.getLastBlockIndex) (hge : start ≤ n)
    (hh : ∀ i, i ∈ c'.heights ↔ i ∈ c.heights ∧ i ≠ n) : c'.Interval start := by
  have htip := getLastBlockIndex_eq (.inl (hn ▸ hge))
  refine interval_of_heights hstart (c.chainTip start - 1) (by omega) (fun i => ?_)
  rw [hh, h i]
  omega

end Changes

end ChainRows

namespace Tables

variable {weight : String → String} {t t' : Tables weight} {n : Int}

/-! ## Section 2: Blocks and their hashes -/

/-- Every stored block's own hash is known. -/
def Hashed (t : Tables weight) : Prop :=
  ∀ b ∈ t.blocks, ∃ hash, t.indexTransactions.valueOf b.blockHashId = some hash

/-- The stored hash at a height, as a caller of `getBlockByIndex` reads it. -/
def hashAt (t : Tables weight) (height : Int) : Option Hash :=
  (t.getBlockByIndex height).bind Block.blockHash

theorem getBlockByIndex_isSome {i : Int} :
    (t.getBlockByIndex i).isSome = true ↔ i ∈ t.heights := by
  unfold getBlockByIndex ChainRows.heights
  rw [Option.isSome_map, List.find?_isSome, List.mem_map]
  constructor
  · rintro ⟨b, hb, hi⟩
    exact ⟨b, hb, by simpa using hi⟩
  · rintro ⟨b, hb, hi⟩
    exact ⟨b, hb, by simpa using hi⟩

/-- What a successful `getBlockByIndex` has read. -/
theorem getBlockByIndex_eq_some {i : Int} {block : Block} (h : t.getBlockByIndex i = some block) :
    ∃ b ∈ t.blocks, b.blockIndex = i ∧ block = toBlock t.indexTransactions b := by
  obtain ⟨b, hb, rfl⟩ := Option.map_eq_some_iff.mp h
  exact ⟨b, List.mem_of_find?_eq_some hb, by simpa using List.find?_some hb, rfl⟩

theorem Hashed.of_getBlockByIndex (h : t.Hashed) {i : Int} {block : Block}
    (hb : t.getBlockByIndex i = some block) : ∃ hash, block.blockHash = some hash := by
  obtain ⟨b, hmem, -, rfl⟩ := getBlockByIndex_eq_some hb
  exact h b hmem

theorem getBlockByIndex_congr (hrows : t'.blocks = t.blocks)
    (hhashes : t'.indexTransactions = t.indexTransactions) (i : Int) :
    t'.getBlockByIndex i = t.getBlockByIndex i := by
  unfold getBlockByIndex
  rw [hrows, hhashes]

theorem Hashed.congr (h : t.Hashed) (hrows : t'.blocks = t.blocks)
    (hhashes : t'.indexTransactions = t.indexTransactions) : t'.Hashed := by
  intro b hb
  rw [hhashes]
  exact h b (hrows ▸ hb)

/-! ## Section 3: Deleting a block -/

@[simp] theorem deleteBlockByIndex_toChainRows (t : Tables weight) (i : Int) (h : Option Hash) :
    (t.deleteBlockByIndex i h).toChainRows = t.toChainRows.deleteBlock i := by
  cases h <;> rfl

@[simp] theorem deleteBlockByIndex_indexTransactions (t : Tables weight) (i : Int)
    (h : Option Hash) : (t.deleteBlockByIndex i h).indexTransactions = t.indexTransactions := by
  cases h <;> rfl

theorem deleteBlockByIndex_events (t : Tables weight) (i : Int) (hash : Hash) :
    (t.deleteBlockByIndex i (some hash)).events = .reorg [(i, hash)] :: t.events := rfl

theorem deleteBlockByIndex_blocks (t : Tables weight) (i : Int) (h : Option Hash) :
    (t.deleteBlockByIndex i h).blocks = t.blocks.filter (fun b => b.blockIndex ≠ i) := by
  cases h <;> rfl

theorem Hashed.deleteBlockByIndex (ht : t.Hashed) (i : Int) (h : Option Hash) :
    (t.deleteBlockByIndex i h).Hashed := by
  intro b hb
  rw [deleteBlockByIndex_blocks] at hb
  rw [deleteBlockByIndex_indexTransactions]
  exact ht b (List.mem_filter.mp hb).1

/-- Deleting a block leaves the others readable as they were. -/
theorem getBlockByIndex_deleteBlockByIndex {i j : Int} (hij : j ≠ i) (h : Option Hash) :
    (t.deleteBlockByIndex i h).getBlockByIndex j = t.getBlockByIndex j := by
  unfold getBlockByIndex
  rw [deleteBlockByIndex_blocks, deleteBlockByIndex_indexTransactions, List.find?_filter]
  congr 1
  congr 1
  funext b
  by_cases hb : b.blockIndex = j
  · simp [hb, hij]
  · simp [hb]

/-! ## Section 4: Links -/

/-- Each block above the start height names the hash stored below it. -/
def Linked (start : Int) (t : Tables weight) : Prop :=
  ∀ h b, start < h → t.getBlockByIndex h = some b →
    ∃ hash, b.previousBlockHash = some hash ∧ t.hashAt (h - 1) = some hash

/-- A stored chain: well-formed rows, an interval of heights, known hashes, and
    each block linked to the one below it. -/
structure Chained (start : Int) (t : Tables weight) : Prop where
  wf       : t.toChainRows.Wf
  interval : t.toChainRows.Interval start
  hashed   : t.Hashed
  linked   : t.Linked start

theorem chained_fresh {start : Int} (hstart : 0 ≤ start) : Chained start (fresh weight) where
  wf       := by
    refine ⟨List.nodup_nil, List.nodup_nil, ?_, ?_, ?_, List.nodup_nil, ?_, ?_, ?_⟩ <;>
      intro x hx <;> cases hx
  interval := by
    have hnone : ∀ h, h ∈ (fresh weight).heights ↔ start ≤ h ∧ h ≤ start - 1 := by
      intro h
      constructor
      · intro hh; cases hh
      · intro hh; omega
    exact ChainRows.interval_of_heights hstart _ (Int.le_refl _) hnone
  hashed   := fun b hb => by cases hb
  linked   := fun h b _ hb => by cases hb

/-- What was read of a block is still read when the hashes have only grown. -/
theorem getBlockByIndex_of_prefix (hblocks : t'.blocks = t.blocks)
    (hhashes : t.indexTransactions.rows <+: t'.indexTransactions.rows) (i : Int) :
    (t.getBlockByIndex i).isSome = (t'.getBlockByIndex i).isSome ∧
      ∀ b, t'.getBlockByIndex i = some b → ∃ b₀, t.getBlockByIndex i = some b₀ ∧
        (∀ hash, b₀.blockHash = some hash → b.blockHash = some hash) ∧
        (∀ hash, b₀.previousBlockHash = some hash → b.previousBlockHash = some hash) := by
  unfold getBlockByIndex
  rw [hblocks]
  refine ⟨by rw [Option.isSome_map, Option.isSome_map], ?_⟩
  intro b hb
  obtain ⟨row, hrow, rfl⟩ := Option.map_eq_some_iff.mp hb
  refine ⟨toBlock t.indexTransactions row, by rw [hrow]; rfl, ?_, ?_⟩
  · exact fun hash h => Index.valueOf_of_prefix hhashes h
  · exact fun hash h => Index.valueOf_of_prefix hhashes h

theorem hashAt_of_prefix (hblocks : t'.blocks = t.blocks)
    (hhashes : t.indexTransactions.rows <+: t'.indexTransactions.rows) {i : Int} {hash : Hash}
    (h : t.hashAt i = some hash) : t'.hashAt i = some hash := by
  obtain ⟨b₀, hb₀, hhash⟩ := Option.bind_eq_some_iff.mp h
  obtain ⟨hsome, hread⟩ := getBlockByIndex_of_prefix hblocks hhashes i
  rw [hb₀] at hsome
  obtain ⟨b, hb⟩ := Option.isSome_iff_exists.mp hsome.symm
  obtain ⟨b₁, hb₁, hkeep, -⟩ := hread b hb
  rw [hb₀] at hb₁
  cases hb₁
  rw [hashAt, hb]
  exact hkeep hash hhash

/-- Statements that write no block keep the chain. -/
theorem Chained.of_prefix {start : Int} (h : Chained start t) (hwf : t'.toChainRows.Wf)
    (hblocks : t'.blocks = t.blocks)
    (hhashes : t.indexTransactions.rows <+: t'.indexTransactions.rows) : Chained start t' where
  wf       := hwf
  interval := by
    intro i
    have hheights : t'.heights = t.heights := ChainRows.heights_eq_of_blocks_eq hblocks
    rw [hheights, ChainRows.chainTip_congr hblocks]
    exact h.interval i
  hashed   := by
    intro b hb
    obtain ⟨hash, hhash⟩ := h.hashed b (hblocks ▸ hb)
    exact ⟨hash, Index.valueOf_of_prefix hhashes hhash⟩
  linked   := by
    intro i b hi hb
    obtain ⟨b₀, hb₀, -, hprev⟩ := ( getBlockByIndex_of_prefix hblocks hhashes i).2 b hb
    obtain ⟨hash, hhash, hbelow⟩ := h.linked i b₀ hi hb₀
    exact ⟨hash, hprev hash hhash, hashAt_of_prefix hblocks hhashes hbelow⟩

/-- The tip block gone. -/
theorem Chained.deleteTip {start : Int} (h : Chained start t) (hstart : 0 ≤ start)
    (htip : n = t.getLastBlockIndex) (hge : start ≤ n) (hash : Option Hash) :
    Chained start (t.deleteBlockByIndex n hash) where
  wf       := by rw [deleteBlockByIndex_toChainRows]; exact h.wf.deleteBlock
  interval := by
    rw [deleteBlockByIndex_toChainRows]
    exact h.interval.pop hstart htip hge (fun _ => ChainRows.mem_heights_deleteBlock)
  hashed   := h.hashed.deleteBlockByIndex n hash
  linked   := by
    intro i b hi hb
    have hstored : i ∈ (t.deleteBlockByIndex n hash).heights :=
      getBlockByIndex_isSome.mp (by rw [hb]; rfl)
    rw [deleteBlockByIndex_toChainRows, ChainRows.mem_heights_deleteBlock] at hstored
    obtain ⟨hmem, hne⟩ := hstored
    have hle : i ≤ t.getLastBlockIndex := ChainRows.le_getLastBlockIndex hmem
    rw [getBlockByIndex_deleteBlockByIndex hne] at hb
    obtain ⟨prev, hprev, hbelow⟩ := h.linked i b hi hb
    refine ⟨prev, hprev, ?_⟩
    rw [hashAt, getBlockByIndex_deleteBlockByIndex (by omega)]
    exact hbelow

/-- The next block: one that names the hash stored below it, or the first. -/
theorem Chained.insertBlock {start time : Int} {hash prev : Hash} (h : Chained start t)
    (hstart : 0 ≤ start) (hins : t.insertBlock n time hash prev = some t')
    (hge : start ≤ n) (hbelow : start < n → t.hashAt (n - 1) = some prev) :
    Chained start t' ∧ n ∈ t'.heights := by
  unfold Tables.insertBlock at hins
  dsimp only at hins
  by_cases hmem : n ∈ t.heights
  · rw [if_pos hmem] at hins
    cases hins
  rw [if_neg hmem, Option.some.injEq] at hins
  -- the height inserted is the one above the tip
  have hlow := ChainRows.start_sub_one_le_chainTip start t.toChainRows
  have hnext : n = t.chainTip start + 1 := by
    have hnot : ¬ n ≤ t.chainTip start := fun hle => hmem ((h.interval n).mpr ⟨hge, hle⟩)
    by_cases hlt : start < n
    · have hsome : (t.getBlockByIndex (n - 1)).isSome = true := by
        obtain ⟨b, hb, -⟩ := Option.bind_eq_some_iff.mp (hbelow hlt)
        rw [hb]
        rfl
      have hle := ((h.interval (n - 1)).mp (getBlockByIndex_isSome.mp hsome)).2
      omega
    · omega
  -- both hashes are known after the insert
  have hfirst := Index.rows_prefix_create 1 t.indexTransactions hash
  have hsecond := Index.rows_prefix_create 1 (t.createTransaction hash).2.indexTransactions prev
  have hgrow : t.indexTransactions.rows <+:
      ((t.createTransaction hash).2.createTransaction prev).2.indexTransactions.rows :=
    hfirst.trans hsecond
  have hhash : ((t.createTransaction hash).2.createTransaction prev).2.indexTransactions.valueOf
      (t.createTransaction hash).1 = some hash :=
    Index.valueOf_of_prefix hsecond
      (Index.valueOf_create_of_injective Function.injective_id 1 _ hash)
  have hprev : ((t.createTransaction hash).2.createTransaction prev).2.indexTransactions.valueOf
      ((t.createTransaction hash).2.createTransaction prev).1 = some prev :=
    Index.valueOf_create_of_injective Function.injective_id 1 _ prev
  have hheights : ∀ i, i ∈ t'.heights ↔ i ∈ t.heights ∨ i = n := by
    intro i
    subst hins
    show i ∈ (t.blocks ++ [_]).map BlockRow.blockIndex ↔ _
    rw [List.map_append, List.mem_append, List.map_singleton, List.mem_singleton]
    exact Iff.rfl
  -- the blocks stored before are read as before
  have hread : ∀ i, i ≠ n → t'.getBlockByIndex i = (t.blocks.find? (fun b => b.blockIndex = i)).map
      (toBlock t'.indexTransactions) := by
    intro i hi
    subst hins
    unfold getBlockByIndex
    rw [List.find?_append]
    have hnone : [(⟨n, time, (t.createTransaction hash).1,
        ((t.createTransaction hash).2.createTransaction prev).1⟩ : BlockRow)].find?
        (fun b => decide (b.blockIndex = i)) = none := by
      simp [Ne.symm hi]
    rw [hnone, Option.or_none]
  have hkeepHash : ∀ i, i ≠ n → ∀ value, t.hashAt i = some value → t'.hashAt i = some value := by
    intro i hi value hvalue
    obtain ⟨b, hb, hbhash⟩ := Option.bind_eq_some_iff.mp hvalue
    obtain ⟨row, hrow, rfl⟩ := Option.map_eq_some_iff.mp hb
    rw [hashAt, hread i hi, hrow]
    subst hins
    exact Index.valueOf_of_prefix hgrow hbhash
  refine ⟨?_, (hheights n).mpr (.inr rfl)⟩
  refine ⟨?_, h.interval.push hstart hnext hheights, ?_, ?_⟩
  · subst hins
    exact h.wf.addBlock (b := ⟨n, time, _, _⟩) hmem
  · intro b hb
    subst hins
    rcases List.mem_append.mp hb with hb | hb
    · obtain ⟨value, hvalue⟩ := h.hashed b hb
      exact ⟨value, Index.valueOf_of_prefix hgrow hvalue⟩
    · rw [List.mem_singleton.mp hb]
      exact ⟨hash, hhash⟩
  · intro i b hi hb
    by_cases hin : i = n
    · subst hin
      have hnew : t'.getBlockByIndex i = some ⟨i, time, some hash, some prev⟩ := by
        subst hins
        unfold getBlockByIndex
        rw [List.find?_append]
        have hnone : t.blocks.find? (fun b => decide (b.blockIndex = i)) = none := by
          rw [List.find?_eq_none]
          intro b hb hbi
          exact hmem (List.mem_map.mpr ⟨b, hb, by simpa using hbi⟩)
        rw [hnone, Option.none_or]
        simp [toBlock, hhash, hprev]
      rw [hnew, Option.some.injEq] at hb
      refine ⟨prev, by rw [← hb], ?_⟩
      exact hkeepHash (i - 1) (by omega) prev (hbelow hi)
    · rw [hread i hin] at hb
      obtain ⟨row, hrow, rfl⟩ := Option.map_eq_some_iff.mp hb
      have hb₀ : t.getBlockByIndex i = some (toBlock t.indexTransactions row) := by
        unfold getBlockByIndex
        rw [hrow]
        rfl
      obtain ⟨value, hvalue, hbelow'⟩ := h.linked i _ hi hb₀
      refine ⟨value, ?_, ?_⟩
      · subst hins
        exact Index.valueOf_of_prefix hgrow hvalue
      · have hstored : i ∈ t.heights := getBlockByIndex_isSome.mp (by rw [hb₀]; rfl)
        have hle := ((h.interval i).mp hstored).2
        exact hkeepHash (i - 1) (by omega) value hbelow'

end Tables

end XChainDecoder
