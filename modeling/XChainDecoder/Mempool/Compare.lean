import XChainDecoder.Mempool.Refresh

/-! # The comparison with the node's list

    The comparison is a filter on either side: the rows the node still lists stay, and
    what it lists and is not stored is left to fetch, in the order of the list. The
    chunks the snapshot is written in, what the connection still held, and how often an id
    is listed make no difference.

    **Main theorem.** `wp_deleteAndCompareTxsNotInList`. -/

namespace XChainDecoder.Mempool

/-! ## Section 1: The tables -/

namespace PendingTable

variable {weight : String → String}

theorem beq_weight (hexact : ∀ a b : Hash, weight a.val = weight b.val → a = b) {a b : Hash} :
    (weight a.val == weight b.val) = true ↔ a = b := by
  rw [beq_iff_eq]
  exact ⟨hexact a b, fun h => by rw [h]⟩

theorem rows_deleteAbsent (hexact : ∀ a b : Hash, weight a.val = weight b.val → a = b)
    (table : PendingTable weight) (snapshot : List Hash) :
    (table.deleteAbsent snapshot).rows = table.rows.filter (fun row => row.tx_hash ∈ snapshot) := by
  refine List.filter_congr (fun row _ => ?_)
  rw [Bool.eq_iff_iff, List.any_eq_true, decide_eq_true_iff]
  constructor
  · intro h
    obtain ⟨txid, hmem, hsame⟩ := h
    rw [← (beq_weight hexact).mp hsame]
    exact hmem
  · intro h
    exact ⟨row.tx_hash, h, (beq_weight hexact).mpr rfl⟩

theorem txids_deleteAbsent (hexact : ∀ a b : Hash, weight a.val = weight b.val → a = b)
    (table : PendingTable weight) (snapshot : List Hash) :
    (table.deleteAbsent snapshot).txids = table.txids.filter (fun txid => txid ∈ snapshot) := by
  unfold txids
  rw [rows_deleteAbsent hexact, List.filter_map]
  rfl

theorem mem_present (hexact : ∀ a b : Hash, weight a.val = weight b.val → a = b)
    (table : PendingTable weight) (snapshot : List Hash) (txid : Hash) :
    txid ∈ table.present snapshot ↔ txid ∈ snapshot ∧ txid ∈ table.txids := by
  unfold present txids
  rw [List.mem_flatMap, List.mem_map]
  constructor
  · intro h
    obtain ⟨listed, hlisted, hmem⟩ := h
    obtain ⟨row, hrow, rfl⟩ := List.mem_map.mp hmem
    obtain ⟨hstored, hsame⟩ := List.mem_filter.mp hrow
    exact ⟨hlisted, row, hstored, (beq_weight hexact).mp hsame⟩
  · intro h
    obtain ⟨hlisted, row, hstored, rfl⟩ := h
    refine ⟨row.tx_hash, hlisted, List.mem_map.mpr ⟨row, List.mem_filter.mpr ⟨hstored, ?_⟩, rfl⟩⟩
    exact (beq_weight hexact).mpr rfl

/-- A row beside which nothing is stored under its id goes in. -/
theorem insert_of_not_mem (hexact : ∀ a b : Hash, weight a.val = weight b.val → a = b)
    (table : PendingTable weight) {row : PendingRow} (hnew : row.tx_hash ∉ table.txids) :
    ∃ table', table.insert row = some table' ∧ table'.rows = table.rows ++ [row] := by
  have hfree : ¬table.holds row.tx_hash = true := by
    intro hheld
    obtain ⟨stored, hstored, hsame⟩ := List.any_eq_true.mp hheld
    exact hnew (List.mem_map.mpr ⟨stored, hstored, (beq_weight hexact).mp hsame⟩)
  unfold insert
  rw [dif_neg hfree]
  exact ⟨_, rfl, rfl⟩

end PendingTable

variable {d : Decoder} {env : Outside}

/-! ## Section 2: The comparison -/

theorem nodup_dedupNodeMempool (d : Decoder) (raw : List Hash) : (dedupNodeMempool d raw).Nodup :=
  (List.mergeSort_perm _ _).nodup_iff.mpr (Slices.nodup_eraseDups raw)

theorem mem_dedupNodeMempool (d : Decoder) (raw : List Hash) (txid : Hash) :
    txid ∈ dedupNodeMempool d raw ↔ txid ∈ raw := by
  unfold dedupNodeMempool
  rw [(List.mergeSort_perm _ _).mem_iff, List.mem_eraseDups]

/-- What a statement may come to. -/
theorem wp_carry {α : Type} {answer : QueryAnswer} {run : State d → α × State d} {s : State d}
    {Q : Except (Stop String) α → State d → Prop}
    (hdone : answer = .answers → Q (.ok (run s).1) (run s).2)
    (hfailed : ∀ error, answer = .failed error → Q (.error (.thrown error)) s)
    (hlost : ∀ error, answer = .lost error → Q (.error (.thrown error)) (run s).2) :
    (carry answer run).wp env s Q := by
  unfold Proc.wp carry
  cases answer with
  | answers => exact hdone rfl
  | failed error => exact hfailed error rfl
  | lost error => exact hlost error rfl

theorem wp_query {α : Type} {run : State d → α × State d} {s : State d}
    {Q : Except (Stop String) α → State d → Prop}
    (hdone : Q (.ok (run s.asked).1) (run s.asked).2)
    (hfailed : ∀ error, Q (.error (.thrown error)) s.asked)
    (hlost : ∀ error, Q (.error (.thrown error)) (run s.asked).2) :
    (query run).wp env s Q := by
  show (carry (env.answer s.calls) run).wp env s.asked Q
  exact wp_carry (fun _ => hdone) (fun error _ => hfailed error) (fun error _ => hlost error)

/-- The rows and the logs are as they were. -/
structure Keeps (s s' : State d) : Prop where
  table_eq   : s'.table = s.table
  fetched_eq : s'.fetched = s.fetched
  sent_eq    : s'.sent = s.sent

theorem Keeps.refl (s : State d) : Keeps s s := ⟨rfl, rfl, rfl⟩

theorem Keeps.trans {s s' s'' : State d} (h : Keeps s s') (h' : Keeps s' s'') : Keeps s s'' :=
  ⟨h'.table_eq.trans h.table_eq, h'.fetched_eq.trans h.fetched_eq, h'.sent_eq.trans h.sent_eq⟩

theorem error_ne_ok {α : Type} {e : Stop String} {a : α} {P : Prop}
    (h : (Except.error e : Except (Stop String) α) = .ok a) : P := by
  cases h

/-- A query on the temporary table alone. -/
theorem wp_execute {run : State d → State d} {s : State d}
    (hrun : ∀ s', Keeps s' (run s')) :
    (execute run).wp env s (fun ended s' => Keeps s s' ∧
      (ended = .ok ⟨⟩ → s' = run s.asked)) := by
  have hstep : Keeps s s.asked := ⟨rfl, rfl, rfl⟩
  exact wp_query ⟨hstep.trans (hrun _), fun _ => rfl⟩ (fun error => ⟨hstep, error_ne_ok⟩)
    (fun error => ⟨hstep.trans (hrun _), error_ne_ok⟩)

theorem wp_getConnection (s : State d) :
    (getConnection : Steps d PUnit).wp env s (fun _ s' => Keeps s s') := by
  unfold Proc.wp getConnection
  cases env.connection s.calls with
  | error error => exact ⟨rfl, rfl, rfl⟩
  | ok leftover => exact ⟨rfl, rfl, rfl⟩

theorem wp_dropMempoolSnapshot (s : State d) :
    (dropMempoolSnapshot : Steps d PUnit).wp env s (fun _ s' => Keeps s s') := by
  refine Proc.wp_guard (P := fun _ s' => Keeps s s')
    (Proc.wp_mono (wp_execute (fun s' => ⟨rfl, rfl, rfl⟩)) (fun _ _ h => h.1))
    (fun _ _ h => h) (fun _ _ h => h) (fun _ h => h) (fun _ h => h)

/-- The snapshot is the list, whatever the connection held and however long the list is. -/
theorem wp_seedMempoolSnapshot {chunkSize : ℕ} (hsize : 0 < chunkSize) (txidList : List Hash)
    (s : State d) :
    (seedMempoolSnapshot txidList chunkSize).wp env s (fun ended s' => Keeps s s' ∧
      (ended = .ok ⟨⟩ → s'.snapshot = some txidList)) := by
  unfold seedMempoolSnapshot
  refine Proc.wp_seq (wp_execute (fun s' => ⟨rfl, rfl, rfl⟩)) ?_ (fun _ _ h => ⟨h.1, error_ne_ok⟩)
  intro _ created hcreated
  have hopen := hcreated.2 rfl
  refine Proc.wp_seq (wp_execute (fun s' => ⟨rfl, rfl, rfl⟩)) ?_
    (fun _ _ h => ⟨hcreated.1.trans h.1, error_ne_ok⟩)
  intro _ cleared hcleared
  -- the table of an earlier comparison is cleared, so the slices start from nothing
  have hempty : cleared.snapshot = some [] := by
    rw [hcleared.2 rfl, hopen]
    rfl
  have hkeeps := hcreated.1.trans hcleared.1
  by_cases hlength : txidList.length > 0
  · rw [if_pos hlength]
    refine Slices.wp_eachSlice hsize
      (fun front _ s' => Keeps s s' ∧ s'.snapshot = some front) ?_ (fun _ _ h => ⟨h.1, fun _ => h.2⟩)
      ⟨hkeeps, hempty⟩
    intro front part back _ s' _ _ _ h
    refine Proc.wp_mono (wp_execute (fun s'' => ⟨rfl, rfl, rfl⟩)) ?_
    intro ended s'' hended
    cases ended with
    | ok _ =>
      refine ⟨h.1.trans hended.1, ?_⟩
      rw [hended.2 rfl]
      show s'.snapshot.map (· ++ part) = some (front ++ part)
      rw [h.2]
      rfl
    | error e => exact ⟨h.1.trans hended.1, error_ne_ok⟩
  · rw [if_neg hlength]
    have hnil : txidList = [] := List.length_eq_zero_iff.mp (by omega)
    refine ⟨hkeeps, fun _ => ?_⟩
    show cleared.snapshot = some txidList
    rw [hempty, hnil]

/-- What is left of a list to fetch. -/
def workList (table : PendingTable d.weight) (txidList : List Hash) : List Hash :=
  txidList.filter (fun txid => txid ∉ table.txids)

/-- The list as `reconcileMempoolSnapshot` leaves it. -/
theorem remaining_eq (table : PendingTable d.weight) {txidList presentRows : List Hash}
    (hpresent : ∀ txid ∈ txidList, txid ∈ presentRows ↔ txid ∈ table.txids) :
    (if presentRows.length > 0 then txidList.filter (fun h => !presentRows.contains h)
      else txidList) = workList table txidList := by
  unfold workList
  by_cases hsome : presentRows.length > 0
  · rw [if_pos hsome]
    refine List.filter_congr (fun txid hmem => ?_)
    have hiff := hpresent txid hmem
    by_cases hstored : txid ∈ table.txids
    · simp [hstored, hiff.mpr hstored]
    · simp [hstored, mt hiff.mp hstored]
  · rw [if_neg hsome]
    have hnil : presentRows = [] := List.length_eq_zero_iff.mp (by omega)
    symm
    rw [List.filter_eq_self]
    intro txid hmem
    have hiff := hpresent txid hmem
    rw [hnil] at hiff
    rw [decide_eq_true_iff]
    exact fun hstored => List.not_mem_nil (hiff.mpr hstored)

/-- What a comparison comes to: the rows are compared or as they were, and an answer
    says that they are compared and what is left to fetch. -/
structure Compares (txidList : List Hash) (s : State d) (ended : Except (Stop String) (ℕ × List Hash))
    (s' : State d) : Prop where
  fetched_eq : s'.fetched = s.fetched
  sent_eq    : s'.sent = s.sent
  table      : s'.table = s.table ∨ s'.table = s.table.deleteAbsent txidList
  answered   : ∀ answer, ended = .ok answer → s'.table = s.table.deleteAbsent txidList ∧
    answer = (s.table.rows.length - (s.table.deleteAbsent txidList).rows.length,
      workList s.table txidList)

theorem wp_reconcileMempoolSnapshot (txidList : List Hash) (s : State d)
    (hseeded : s.snapshot = some txidList) :
    (reconcileMempoolSnapshot txidList).wp env s (Compares txidList s) := by
  unfold reconcileMempoolSnapshot
  have hdeleted : s.asked.table.deleteAbsent (s.asked.snapshot.getD []) =
      s.table.deleteAbsent txidList := by
    show s.table.deleteAbsent (s.snapshot.getD []) = _
    rw [hseeded]
    rfl
  refine Proc.wp_seq (P := fun ended s' => s'.snapshot = some txidList ∧
    Compares txidList s (ended.map (fun n => (n, workList s.table txidList))) s') ?_ ?_
    (fun e s' h => ⟨h.2.fetched_eq, h.2.sent_eq, h.2.table, fun _ => error_ne_ok⟩)
  -- answered, refused, or done without an answer
  · refine wp_query ?_ (fun error => ?_) (fun error => ?_)
    · refine ⟨hseeded, rfl, rfl, .inr hdeleted, fun answer hanswer => ⟨hdeleted, ?_⟩⟩
      rw [← Except.ok.inj hanswer, hdeleted]
      rfl
    · exact ⟨hseeded, rfl, rfl, .inl rfl, fun _ => error_ne_ok⟩
    · exact ⟨hseeded, rfl, rfl, .inr hdeleted, fun _ => error_ne_ok⟩
  · intro n deleted h
    obtain ⟨htable, hanswer⟩ := h.2.answered _ rfl
    have hcount := (Prod.mk.inj hanswer).1
    refine Proc.wp_seq (P := fun ended s' => Keeps deleted s' ∧ ∀ rows : List Hash, ended = .ok rows →
      ∀ txid ∈ txidList, txid ∈ rows ↔ txid ∈ s.table.txids) ?_ ?_ ?_
    -- an empty snapshot is not asked for
    · unfold selectPresent
      by_cases hlength : txidList.length > 0
      · rw [if_pos hlength]
        have hstep : Keeps deleted deleted.asked := ⟨rfl, rfl, rfl⟩
        refine wp_query ⟨hstep, ?_⟩ (fun _ => ⟨hstep, fun _ => error_ne_ok⟩)
          (fun _ => ⟨hstep, fun _ => error_ne_ok⟩)
        intro rows hrows txid hmem
        rw [← Except.ok.inj hrows]
        show txid ∈ deleted.table.present (deleted.snapshot.getD []) ↔ _
        rw [h.1, Option.getD_some, PendingTable.mem_present d.weight_exact, htable,
          PendingTable.txids_deleteAbsent d.weight_exact, List.mem_filter]
        simp [hmem]
      · rw [if_neg hlength]
        refine ⟨Keeps.refl _, fun _ _ txid hmem => ?_⟩
        have hnil : txidList = [] := List.length_eq_zero_iff.mp (by omega)
        rw [hnil] at hmem
        exact absurd hmem List.not_mem_nil
    · intro rows s' hrows
      have hremaining := remaining_eq s.table (hrows.2 rows rfl)
      have hends : Compares txidList s (.ok (n, if rows.length > 0 then
          txidList.filter (fun h => !rows.contains h) else txidList)) s' := by
        refine ⟨hrows.1.fetched_eq.trans h.2.fetched_eq, hrows.1.sent_eq.trans h.2.sent_eq,
          .inr (hrows.1.table_eq.trans htable), fun answer hok => ?_⟩
        rw [← Except.ok.inj hok, hremaining, hcount]
        exact ⟨hrows.1.table_eq.trans htable, rfl⟩
      by_cases hsome : rows.length > 0
      · rw [if_pos hsome] at hends ⊢
        exact hends
      · rw [if_neg hsome] at hends ⊢
        exact hends
    · intro e s' hfailed
      exact ⟨hfailed.1.fetched_eq.trans h.2.fetched_eq, hfailed.1.sent_eq.trans h.2.sent_eq,
        .inr (hfailed.1.table_eq.trans htable), fun _ => error_ne_ok⟩

/-- What is only noted after a comparison leaves it as it is. -/
theorem Compares.keeps {txidList : List Hash} {s s' s'' : State d}
    {ended : Except (Stop String) (ℕ × List Hash)} (h : Compares txidList s ended s')
    (hkeeps : Keeps s' s'') : Compares txidList s ended s'' where
  fetched_eq := hkeeps.fetched_eq.trans h.fetched_eq
  sent_eq    := hkeeps.sent_eq.trans h.sent_eq
  table      := h.table.imp hkeeps.table_eq.trans hkeeps.table_eq.trans
  answered   := fun answer hok =>
    ⟨hkeeps.table_eq.trans (h.answered answer hok).1, (h.answered answer hok).2⟩

theorem Compares.of_keeps {txidList : List Hash} {s s' : State d} {e : Stop String}
    (hkeeps : Keeps s s') : Compares txidList s (.error e) s' :=
  ⟨hkeeps.fetched_eq, hkeeps.sent_eq, .inl hkeeps.table_eq, fun _ => error_ne_ok⟩

theorem Compares.starts {txidList : List Hash} {s s₀ s' : State d}
    {ended : Except (Stop String) (ℕ × List Hash)} (hkeeps : Keeps s s₀)
    (h : Compares txidList s₀ ended s') : Compares txidList s ended s' where
  fetched_eq := h.fetched_eq.trans hkeeps.fetched_eq
  sent_eq    := h.sent_eq.trans hkeeps.sent_eq
  table      := by
    rw [← hkeeps.table_eq]
    exact h.table
  answered   := by
    rw [← hkeeps.table_eq]
    exact h.answered

/-- **The comparison**, whatever the connection held and however long the list is. -/
theorem wp_deleteAndCompareTxsNotInList (txidList : List Hash) (s : State d) :
    (deleteAndCompareTxsNotInList txidList).wp env s (Compares txidList s) := by
  unfold deleteAndCompareTxsNotInList
  refine Proc.wp_seq (wp_getConnection s) ?_ (fun _ _ h => .of_keeps h)
  intro _ leased hleased
  refine Proc.wp_seq (P := Compares txidList s) ?_ ?_ (fun _ _ h => h)
  · refine Proc.wp_guard (P := Compares txidList s) ?_ (fun _ _ h => h) ?_ (fun _ h => h)
      (fun _ h => h)
    · refine Proc.wp_seq (wp_seedMempoolSnapshot (by decide) txidList leased) ?_
        (fun _ _ h => .of_keeps (hleased.trans h.1))
      intro _ seeded hseeded
      exact Proc.wp_mono (wp_reconcileMempoolSnapshot txidList seeded (hseeded.2 rfl))
        (fun _ _ h => .starts (hleased.trans hseeded.1) h)
    · intro err failed hfailed
      refine Proc.wp_seq (wp_dropMempoolSnapshot failed) ?_ ?_
      · exact fun _ _ hdropped => hfailed.keeps hdropped
      · intro e s' hdropped
        have hends := hfailed.keeps hdropped
        exact ⟨hends.fetched_eq, hends.sent_eq, hends.table, fun _ => error_ne_ok⟩
  · intro compared s' hcompared
    refine Proc.wp_seq (wp_dropMempoolSnapshot s') ?_ ?_
    · exact fun _ _ hdropped => hcompared.keeps hdropped
    · intro e s'' hdropped
      have hends := hcompared.keeps hdropped
      exact ⟨hends.fetched_eq, hends.sent_eq, hends.table, fun _ => error_ne_ok⟩

end XChainDecoder.Mempool
