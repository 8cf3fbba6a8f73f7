import XChainDecoder.Mempool.Compare

/-! # A refresh loses and duplicates nothing

    The batches ask for the work list the comparison leaves, each id once, and every id
    that is answered, decodes and parses is sent to the database once
    (`wp_storeMempoolBatches`): what is sent is new to the table, so the unique index
    refuses nothing.

    **Main theorem.** `refresh_exact`: the rows after a cycle are those that stayed and
    those whose INSERT was carried out, whatever fails in between. -/

namespace XChainDecoder.Mempool

variable {d : Decoder} {env : Outside}

/-! ## Section 1: The batches -/

/-- The ids whose row went in. -/
def landed (sent : List Sent) : List Hash :=
  (sent.filter (fun insert => insert.answer.carriedOut)).map Sent.txid

theorem landed_append (sent more : List Sent) :
    landed (sent ++ more) = landed sent ++ landed more := by
  unfold landed
  rw [List.filter_append, List.map_append]

theorem landed_sublist (sent : List Sent) : (landed sent).Sublist (sent.map Sent.txid) :=
  List.filter_sublist.map _

/-- The ids of a batch that are answered with bytes a row can be made of. -/
def deliveredOf (d : Decoder) (env : Outside) (txids : List Hash)
    (answers : List (Option (List UInt8))) : List Hash :=
  (txids.zip answers).filterMap (fun answer => answer.2.bind (fun nextTxHex =>
    (readMempoolTransaction d env (some answer.1) nextTxHex).map Prod.fst))

def delivered (d : Decoder) (env : Outside) (fetch : Fetch) : List Hash :=
  match fetch.answer with
  | .error _    => []
  | .ok answers => deliveredOf d env fetch.txids answers

theorem txid_of_read {txid txid' : Hash} {nextTxHex : List UInt8} {r : ParseResult}
    (h : readMempoolTransaction d env (some txid) nextTxHex = some (txid', r)) : txid' = txid := by
  unfold readMempoolTransaction at h
  cases hdecode : decodeMempoolTransaction d nextTxHex with
  | none =>
    rw [hdecode] at h
    cases h
  | some nextTx =>
    rw [hdecode] at h
    dsimp only at h
    by_cases hid : d.getId nextTx ≠ txid
    · rw [if_pos hid] at h
      cases h
    · rw [if_neg hid] at h
      obtain ⟨parsed, -, hparsed⟩ := Option.map_eq_some_iff.mp h
      exact (Prod.mk.inj hparsed).1.symm

theorem deliveredOf_sublist (txids : List Hash) (answers : List (Option (List UInt8))) :
    (deliveredOf d env txids answers).Sublist txids := by
  induction txids generalizing answers with
  | nil => exact List.Sublist.refl _
  | cons txid txids ih =>
    cases answers with
    | nil => exact List.nil_sublist _
    | cons answer answers =>
      unfold deliveredOf at ih ⊢
      rw [List.zip_cons_cons, List.filterMap_cons]
      cases hread : answer.bind (fun nextTxHex =>
        (readMempoolTransaction d env (some txid) nextTxHex).map Prod.fst) with
      | none => exact (ih answers).cons txid
      | some found =>
        obtain ⟨nextTxHex, -, hfound⟩ := Option.bind_eq_some_iff.mp hread
        obtain ⟨⟨txid', r⟩, hparsed, rfl⟩ := Option.map_eq_some_iff.mp hfound
        rw [txid_of_read hparsed]
        exact (ih answers).cons_cons txid

theorem delivered_sublist (fetch : Fetch) : (delivered d env fetch).Sublist fetch.txids := by
  unfold delivered
  cases fetch.answer with
  | error error => exact List.nil_sublist _
  | ok answers => exact deliveredOf_sublist fetch.txids answers

/-- From `s` to `s'` these batches were fetched and these rows were sent, and the table
    grew by the rows that were carried out. -/
structure Ran (s s' : State d) (fetched : List Fetch) (sent : List Sent) : Prop where
  fetched_eq : s'.fetched = s.fetched ++ fetched
  sent_eq    : s'.sent = s.sent ++ sent
  rows       : ∃ new, s'.table.rows = s.table.rows ++ new ∧ new.map PendingRow.tx_hash = landed sent

theorem Keeps.ran {s s' : State d} (h : Keeps s s') : Ran s s' [] [] where
  fetched_eq := by rw [h.fetched_eq, List.append_nil]
  sent_eq    := by rw [h.sent_eq, List.append_nil]
  rows       := ⟨[], by rw [h.table_eq, List.append_nil], rfl⟩

theorem Ran.trans {s s' s'' : State d} {fetched fetched' : List Fetch} {sent sent' : List Sent}
    (h : Ran s s' fetched sent) (h' : Ran s' s'' fetched' sent') :
    Ran s s'' (fetched ++ fetched') (sent ++ sent') where
  fetched_eq := by rw [h'.fetched_eq, h.fetched_eq, List.append_assoc]
  sent_eq    := by rw [h'.sent_eq, h.sent_eq, List.append_assoc]
  rows       := by
    obtain ⟨new, hrows, hnew⟩ := h.rows
    obtain ⟨new', hrows', hnew'⟩ := h'.rows
    refine ⟨new ++ new', by rw [hrows', hrows, List.append_assoc], ?_⟩
    rw [List.map_append, hnew, hnew', landed_append]

theorem Ran.txids_eq {s s' : State d} {fetched : List Fetch} {sent : List Sent}
    (h : Ran s s' fetched sent) : s'.table.txids = s.table.txids ++ landed sent := by
  obtain ⟨new, hrows, hnew⟩ := h.rows
  unfold PendingTable.txids
  rw [hrows, List.map_append, hnew]

/-- Whatever was sent of what was to come, the rest is still new to the table. -/
theorem Ran.fresh {s s' : State d} {fetched : List Fetch} {sent : List Sent}
    (h : Ran s s' fetched sent) {rest : List Hash}
    (hfresh : (s.table.txids ++ (sent.map Sent.txid ++ rest)).Nodup) :
    (s'.table.txids ++ rest).Nodup := by
  rw [h.txids_eq, List.append_assoc]
  refine hfresh.sublist ?_
  exact (List.Sublist.refl _).append ((landed_sublist sent).append (List.Sublist.refl _))

/-- What the storing of these ids comes to: each is sent once and in order, up to where
    it is cut off. -/
def Sends {α : Type} (txids : List Hash) (s : State d) (ended : Except (Stop String) α)
    (s' : State d) : Prop :=
  ∃ sent, Ran s s' [] sent ∧ sent.map Sent.txid <+: txids ∧
    ∀ a, ended = .ok a → sent.map Sent.txid = txids

theorem sends_nil {α : Type} {s s' : State d} {ended : Except (Stop String) α}
    (h : Keeps s s') : Sends [] s ended s' :=
  ⟨[], h.ran, List.prefix_rfl, fun _ _ => rfl⟩

theorem Sends.cut {α : Type} {txids more : List Hash} {s s' : State d} {e : Stop String}
    (h : Sends txids s (.error e : Except (Stop String) α) s') {β : Type} :
    Sends (txids ++ more) s (.error e : Except (Stop String) β) s' := by
  obtain ⟨sent, hran, hpart, -⟩ := h
  exact ⟨sent, hran, hpart.trans (List.prefix_append _ _), fun _ => error_ne_ok⟩

theorem Sends.append {α β : Type} {txids more : List Hash} {s s' s'' : State d} {a : α}
    {ended : Except (Stop String) β} (h : Sends txids s (.ok a) s') (h' : Sends more s' ended s'') :
    Sends (txids ++ more) s ended s'' := by
  obtain ⟨sent, hran, -, hall⟩ := h
  obtain ⟨sent', hran', hpart', hall'⟩ := h'
  refine ⟨sent ++ sent', hran.trans hran', ?_, fun b hb => ?_⟩
  · rw [List.map_append, hall a rfl]
    exact (List.prefix_append_right_inj txids).mpr hpart'
  · rw [List.map_append, hall a rfl, hall' b hb]

theorem putRow_of_not_mem (row : PendingRow) (s : State d) (hnew : row.tx_hash ∉ s.table.txids) :
    (putRow row s).2.fetched = s.fetched ∧ (putRow row s).2.sent = s.sent ∧
      (putRow row s).2.table.rows = s.table.rows ++ [row] := by
  obtain ⟨table, hinsert, hrows⟩ := s.table.insert_of_not_mem d.weight_exact hnew
  unfold putRow
  rw [hinsert]
  exact ⟨rfl, rfl, hrows⟩

theorem wp_insertRow {row : PendingRow} {s : State d} {Q : Except (Stop String) Bool → State d → Prop}
    (h : (carry (env.insertAnswer s.sent.length) (putRow row)).wp env
      (s.sending row.tx_hash (env.insertAnswer s.sent.length)) Q) :
    (insertRow row).wp env s Q := h

/-- A row under a new id is sent once, and is in the table where it was carried out. -/
theorem wp_insertMempoolTransaction (row : PendingRow) (s : State d)
    (hnew : row.tx_hash ∉ s.table.txids) :
    (insertMempoolTransaction row).wp env s (Sends [row.tx_hash] s) := by
  unfold insertMempoolTransaction
  refine Proc.wp_seq (wp_getConnection s) ?_ ?_
  · intro _ leased hleased
    rw [← hleased.table_eq] at hnew
    have hends : ∀ (ended : Except (Stop String) Bool) (s' : State d),
        (∃ sent, Ran s s' [] sent ∧ sent.map Sent.txid = [row.tx_hash]) →
        Sends [row.tx_hash] s ended s' := by
      intro ended s' h
      obtain ⟨sent, hran, hsent⟩ := h
      exact ⟨sent, hran, by rw [hsent], fun _ _ => hsent⟩
    refine Proc.wp_guard
      (P := fun _ s' => ∃ sent, Ran s s' [] sent ∧ sent.map Sent.txid = [row.tx_hash]) ?_
      (fun _ _ => hends _ _) (fun _ _ => hends _ _) (fun _ => hends _ _) (fun _ => hends _ _)
    -- each of the three answers is noted under the id, and only a failure leaves no row
    have hnoted : ∀ (answer : QueryAnswer) (s' : State d),
        s'.fetched = leased.fetched → s'.sent = leased.sent ++ [⟨row.tx_hash, answer⟩] →
        s'.table.rows = leased.table.rows ++ (if answer.carriedOut then [row] else []) →
        ∃ sent, Ran s s' [] sent ∧ sent.map Sent.txid = [row.tx_hash] := by
      intro answer s' hfetched hsent htable
      refine ⟨[⟨row.tx_hash, answer⟩], ⟨?_, ?_, ?_⟩, rfl⟩
      · rw [hfetched, hleased.fetched_eq, List.append_nil]
      · rw [hsent, hleased.sent_eq]
      · refine ⟨if answer.carriedOut then [row] else [], by rw [htable, hleased.table_eq], ?_⟩
        cases answer with
        | answers => rfl
        | failed error => rfl
        | lost error => rfl
    obtain ⟨hfetched, hsent, hrows⟩ := putRow_of_not_mem row
      (leased.sending row.tx_hash (env.insertAnswer leased.sent.length)) hnew
    refine wp_insertRow (wp_carry (fun hanswer => ?_) (fun error hanswer => ?_)
      (fun error hanswer => ?_))
    · exact hnoted .answers _ hfetched (by rw [hsent, hanswer]; rfl) hrows
    · exact hnoted (.failed error) _ rfl (by rw [hanswer]; rfl) (List.append_nil _).symm
    · exact hnoted (.lost error) _ hfetched (by rw [hsent, hanswer]; rfl) hrows
  · intro e s' h
    exact ⟨[], h.ran, List.nil_prefix, fun _ => error_ne_ok⟩

theorem wp_storeMempoolTransaction (nodeTxid : Option Hash) (nextTxHex : List UInt8) (s : State d)
    (hnew : ∀ txid ∈ (readMempoolTransaction d env nodeTxid nextTxHex).map Prod.fst,
      txid ∉ s.table.txids) :
    (storeMempoolTransaction nodeTxid nextTxHex).wp env s
      (Sends ((readMempoolTransaction d env nodeTxid nextTxHex).map Prod.fst).toList s) := by
  unfold storeMempoolTransaction
  refine Proc.wp_bind.mpr (Proc.wp_read.mpr ?_)
  rw [Proc.continuesWith_ok]
  cases hread : readMempoolTransaction d env nodeTxid nextTxHex with
  | none => exact sends_nil (Keeps.refl s)
  | some found =>
    obtain ⟨txid, r⟩ := found
    rw [hread] at hnew
    refine Proc.wp_seq (wp_insertMempoolTransaction (pendingRow d txid r) s (hnew txid rfl)) ?_ ?_
    · intro inserted s' h
      obtain ⟨sent, hran, hpart, hall⟩ := h
      exact ⟨sent, hran, hpart, fun _ _ => hall inserted rfl⟩
    · intro e s' h
      obtain ⟨sent, hran, hpart, -⟩ := h
      exact ⟨sent, hran, hpart, fun _ => error_ne_ok⟩

theorem read_none (nextTxHex : List UInt8) : readMempoolTransaction d env none nextTxHex = none := by
  unfold readMempoolTransaction
  cases decodeMempoolTransaction d nextTxHex with
  | none => rfl
  | some nextTx => rfl

/-- The first answer is for the id at the index; behind the ids nothing is delivered. -/
theorem deliveredOf_drop (chunk : List Hash) (i : ℕ) (answer : Option (List UInt8))
    (answers : List (Option (List UInt8))) :
    deliveredOf d env (chunk.drop i) (answer :: answers) =
      (answer.bind (fun nextTxHex =>
        (readMempoolTransaction d env chunk[i]? nextTxHex).map Prod.fst)).toList ++
        deliveredOf d env (chunk.drop (i + 1)) answers := by
  unfold deliveredOf
  by_cases hi : i < chunk.length
  · rw [List.drop_eq_getElem_cons hi, List.zip_cons_cons, List.filterMap_cons,
      List.getElem?_eq_getElem hi]
    cases answer.bind (fun nextTxHex =>
      (readMempoolTransaction d env (some chunk[i]) nextTxHex).map Prod.fst) with
    | none => rfl
    | some txid => rfl
  · rw [List.drop_eq_nil_of_le (by omega), List.drop_eq_nil_of_le (by omega),
      List.getElem?_eq_none (by omega), List.zip_nil_left, List.zip_nil_left]
    cases answer with
    | none => rfl
    | some nextTxHex =>
      rw [Option.bind_some, read_none]
      rfl

/-- The answers from an index on send what they deliver of the ids from that index on. -/
theorem wp_storeAnswers (chunk : List Hash) (answers : List (Option (List UInt8))) :
    ∀ (i count : ℕ) (s : State d),
      (s.table.txids ++ deliveredOf d env (chunk.drop i) answers).Nodup →
      (storeAnswers chunk i answers count).wp env s
        (Sends (deliveredOf d env (chunk.drop i) answers) s) := by
  induction answers with
  | nil =>
    intro i count s _
    have hnone : deliveredOf d env (chunk.drop i) [] = [] := by
      unfold deliveredOf
      rw [List.zip_nil_right]
      rfl
    rw [hnone]
    exact sends_nil (Keeps.refl s)
  | cons answer answers ih =>
    intro i count s hfresh
    rw [deliveredOf_drop] at hfresh ⊢
    cases answer with
    | none => exact ih (i + 1) count s hfresh
    | some nextTxHex =>
      rw [Option.bind_some] at hfresh ⊢
      refine Proc.wp_seq (wp_storeMempoolTransaction chunk[i]? nextTxHex s ?_) ?_ ?_
      · intro txid htxid hstored
        have hdisjoint := List.disjoint_of_nodup_append hfresh
        exact hdisjoint hstored (List.mem_append_left _ (Option.mem_toList.mpr htxid))
      · intro valid s' hfirst
        have hrest : (s'.table.txids ++ deliveredOf d env (chunk.drop (i + 1)) answers).Nodup := by
          obtain ⟨sent, hran, -, hall⟩ := hfirst
          refine hran.fresh ?_
          rw [hall valid rfl]
          exact hfresh
        exact Proc.wp_mono (ih (i + 1) _ s' hrest) (fun _ _ h => hfirst.append h)
      · exact fun e s' hcut => hcut.cut

/-- What a run of batches comes to: the batches ask for a part of the work list, all of
    it where the run ends, and what they deliver is sent once and in order, up to where
    the run is cut off. -/
structure Batches (rawMempool : List Hash) (s : State d) (env : Outside)
    (ended : Except (Stop String) ℕ) (s' : State d) (fetched : List Fetch) (sent : List Sent) :
    Prop where
  ran      : Ran s s' fetched sent
  asked    : fetched.flatMap Fetch.txids <+: rawMempool
  stored   : sent.map Sent.txid <+: fetched.flatMap (delivered d env)
  complete : ∀ count, ended = .ok count → fetched.flatMap Fetch.txids = rawMempool ∧
    sent.map Sent.txid = fetched.flatMap (delivered d env)

theorem flatMap_delivered_sublist (fetched : List Fetch) :
    (fetched.flatMap (delivered d env)).Sublist (fetched.flatMap Fetch.txids) := by
  induction fetched with
  | nil => exact List.Sublist.refl _
  | cons fetch fetched ih =>
    rw [List.flatMap_cons, List.flatMap_cons]
    exact (delivered_sublist fetch).append ih

theorem wp_getRawTransactions (chunk : List Hash) (s : State d)
    (Q : Except (Stop String) (Except String (List (Option (List UInt8)))) → State d → Prop) :
    (getRawTransactions chunk).wp env s Q ↔ Q (.ok (env.getRawTransactions s.fetched.length chunk))
      (s.fetching ⟨chunk, env.getRawTransactions s.fetched.length chunk⟩) := Iff.rfl

/-- A batch: it is asked for once, and what it delivers is sent. -/
theorem wp_storeMempoolBatch (chunk : List Hash) (count : ℕ) (s : State d)
    (hfresh : (s.table.txids ++ chunk).Nodup) :
    (storeMempoolBatch chunk count).wp env s (fun ended s' => ∃ fetch sent,
      Ran s s' [fetch] sent ∧ fetch.txids = chunk ∧
      sent.map Sent.txid <+: delivered d env fetch ∧
      ∀ n, ended = .ok n → sent.map Sent.txid = delivered d env fetch) := by
  have hfetch : ∀ fetch, Ran s (s.fetching fetch) [fetch] [] := fun fetch =>
    ⟨rfl, (List.append_nil _).symm, [], (List.append_nil _).symm, rfl⟩
  unfold storeMempoolBatch
  rw [Proc.wp_bind, wp_getRawTransactions, Proc.continuesWith_ok]
  cases hanswer : env.getRawTransactions s.fetched.length chunk with
  | error error => exact ⟨_, _, hfetch _, rfl, List.prefix_rfl, fun _ _ => rfl⟩
  | ok nextTxsHex =>
    have hnew : (s.table.txids ++ deliveredOf d env (chunk.drop 0) nextTxsHex).Nodup :=
      hfresh.sublist ((List.Sublist.refl _).append (deliveredOf_sublist chunk nextTxsHex))
    refine Proc.wp_mono (wp_storeAnswers chunk nextTxsHex 0 count _ hnew) ?_
    intro ended s' h
    obtain ⟨sent, hran, hpart, hall⟩ := h
    exact ⟨_, _, (hfetch _).trans hran, rfl, hpart, hall⟩

/-- **The batches**: they ask for the work list, and send what they deliver. -/
theorem wp_storeMempoolBatches (rawMempool : List Hash) (s : State d)
    (hfresh : (s.table.txids ++ rawMempool).Nodup) :
    (storeMempoolBatches rawMempool).wp env s
      (fun ended s' => ∃ fetched sent, Batches rawMempool s env ended s' fetched sent) := by
  unfold storeMempoolBatches
  refine Slices.wp_eachSlice (by decide) (fun front _ s' => ∃ fetched sent,
    Ran s s' fetched sent ∧ fetched.flatMap Fetch.txids = front ∧
    sent.map Sent.txid = fetched.flatMap (delivered d env)) ?_ ?_
    ⟨[], [], (Keeps.refl s).ran, rfl, rfl⟩
  · intro front part back count s' hcut _ _ h
    obtain ⟨fetched, sent, hran, hasked, hsent⟩ := h
    -- what the batches before stored are txids of the front, so this part is still new
    have hpart : (s'.table.txids ++ part).Nodup := by
      refine hran.fresh (hfresh.sublist ?_)
      rw [← hcut, hsent, ← hasked]
      refine (List.Sublist.refl _).append ?_
      exact ((flatMap_delivered_sublist fetched).append (List.Sublist.refl part)).trans
        (List.sublist_append_left _ back)
    refine Proc.wp_mono (wp_storeMempoolBatch part count s' hpart) ?_
    intro ended s'' hbatch
    obtain ⟨fetch, sent', hran', rfl, hsome, hall⟩ := hbatch
    have hasked' : (fetched ++ [fetch]).flatMap Fetch.txids = front ++ fetch.txids := by
      rw [List.flatMap_append, hasked, List.flatMap_singleton]
    have hdelivered : (fetched ++ [fetch]).flatMap (delivered d env) =
        fetched.flatMap (delivered d env) ++ delivered d env fetch := by
      rw [List.flatMap_append, List.flatMap_singleton]
    cases ended with
    | ok n =>
      refine ⟨_, _, hran.trans hran', hasked', ?_⟩
      rw [List.map_append, hsent, hall n rfl, hdelivered]
    | error e =>
      refine ⟨_, _, hran.trans hran', ?_, ?_, fun _ => error_ne_ok⟩
      · rw [hasked', ← hcut]
        exact List.prefix_append _ _
      · rw [List.map_append, hsent, hdelivered]
        exact (List.prefix_append_right_inj _).mpr hsome
  · intro count s' h
    obtain ⟨fetched, sent, hran, hasked, hsent⟩ := h
    exact ⟨fetched, sent, hran, hasked ▸ List.prefix_rfl, hsent ▸ List.prefix_rfl,
      fun _ _ => ⟨hasked, hsent⟩⟩

/-! ## Section 2: The cycle -/

/-- What a cycle comes to over the list `raw`. -/
structure Refreshed (raw : List Hash) (s : State d) (env : Outside)
    (ended : Except (Stop String) Report) (s' : State d) (fetched : List Fetch)
    (sent : List Sent) : Prop where
  fetched_eq : s'.fetched = s.fetched ++ fetched
  sent_eq    : s'.sent = s.sent ++ sent
  /-- the batches ask for what is new of the list, in its order -/
  asked      : fetched.flatMap Fetch.txids <+: workList s.table (dedupNodeMempool d raw)
  /-- what they deliver is sent, in order -/
  stored     : sent.map Sent.txid <+: fetched.flatMap (delivered d env)
  /-- nothing is sent twice, and nothing that is stored -/
  once       : (s.table.txids ++ sent.map Sent.txid).Nodup
  /-- the rows are those that were there, or those of them that are listed, and behind
      them those that went in -/
  rows       : ∃ kept new, s'.table.rows = kept ++ new ∧ new.map PendingRow.tx_hash = landed sent ∧
    (kept = s.table.rows ∨ kept = s.table.rows.filter (fun row => row.tx_hash ∈ raw))
  /-- a cycle that is run to its end has asked for all that is new, has sent all that
      was delivered, and has kept nothing but what is listed -/
  complete   : ∀ report, ended = .ok report →
    fetched.flatMap Fetch.txids = workList s.table (dedupNodeMempool d raw) ∧
    sent.map Sent.txid = fetched.flatMap (delivered d env) ∧
    (∃ new, s'.table.rows = s.table.rows.filter (fun row => row.tx_hash ∈ raw) ++ new ∧
      new.map PendingRow.tx_hash = landed sent) ∧
    report.inMempool = (dedupNodeMempool d raw).length ∧
    report.new = (workList s.table (dedupNodeMempool d raw)).length

theorem rows_deleteAbsent_dedup (s : State d) (raw : List Hash) :
    (s.table.deleteAbsent (dedupNodeMempool d raw)).rows =
      s.table.rows.filter (fun row => row.tx_hash ∈ raw) := by
  rw [PendingTable.rows_deleteAbsent d.weight_exact]
  refine List.filter_congr (fun row _ => ?_)
  rw [decide_eq_decide, mem_dedupNodeMempool]

/-- What is left to fetch is new, and each of it listed once. -/
theorem nodup_append_workList (s : State d) (raw : List Hash) :
    (s.table.txids ++ workList s.table (dedupNodeMempool d raw)).Nodup := by
  rw [List.nodup_append]
  refine ⟨s.table.nodup_txids, (nodup_dedupNodeMempool d raw).filter _, ?_⟩
  intro a ha b hb hab
  have hnew := (List.mem_filter.mp hb).2
  rw [decide_eq_true_iff, ← hab] at hnew
  exact hnew ha

theorem wp_refreshMempoolRows (raw : List Hash) (s : State d) :
    (refreshMempoolRows (dedupNodeMempool d raw) (dedupNodeMempool d raw).length).wp env s
      (fun ended s' => ∃ fetched sent, Refreshed raw s env ended s' fetched sent) := by
  unfold refreshMempoolRows
  refine Proc.wp_seq (wp_deleteAndCompareTxsNotInList (dedupNodeMempool d raw) s) ?_ ?_
  · intro answer compared hcompared
    obtain ⟨htable, rfl⟩ := hcompared.answered answer rfl
    have hkept := rows_deleteAbsent_dedup s raw
    rw [← htable] at hkept
    have hnew := nodup_append_workList s raw
    have hfresh : (compared.table.txids ++ workList s.table (dedupNodeMempool d raw)).Nodup := by
      refine hnew.sublist (List.Sublist.append ?_ (List.Sublist.refl _))
      unfold PendingTable.txids
      rw [hkept]
      exact List.filter_sublist.map _
    -- what is sent is a part of what is delivered, and that of what is asked for
    have hends : ∀ (counted : Except (Stop String) ℕ) (s' : State d) (fetched : List Fetch)
        (sent : List Sent), Batches (workList s.table (dedupNodeMempool d raw)) compared env counted
          s' fetched sent → ∀ ended : Except (Stop String) Report,
        (∀ report, ended = .ok report → (∃ n, counted = .ok n) ∧
          report.inMempool = (dedupNodeMempool d raw).length ∧
          report.new = (workList s.table (dedupNodeMempool d raw)).length) →
        Refreshed raw s env ended s' fetched sent := by
      intro counted s' fetched sent h ended hreport
      obtain ⟨new, hrows, hlanded⟩ := h.ran.rows
      rw [hkept] at hrows
      refine ⟨h.ran.fetched_eq.trans (by rw [hcompared.fetched_eq]),
        h.ran.sent_eq.trans (by rw [hcompared.sent_eq]), h.asked, h.stored, ?_,
        ⟨_, new, hrows, hlanded, .inr rfl⟩, ?_⟩
      · refine hnew.sublist ((List.Sublist.refl _).append ?_)
        exact h.stored.sublist.trans ((flatMap_delivered_sublist fetched).trans h.asked.sublist)
      · intro report hok
        obtain ⟨⟨n, hn⟩, hcount, hwork⟩ := hreport report hok
        obtain ⟨hall, hsent⟩ := h.complete n hn
        exact ⟨hall, hsent, ⟨new, hrows, hlanded⟩, hcount, hwork⟩
    refine Proc.wp_seq (wp_storeMempoolBatches _ compared hfresh) ?_ ?_
    · intro count s' h
      obtain ⟨fetched, sent, hbatches⟩ := h
      refine ⟨fetched, sent, hends _ s' _ _ hbatches _ (fun report hok => ?_)⟩
      rw [← Except.ok.inj hok]
      exact ⟨⟨count, rfl⟩, rfl, rfl⟩
    · intro e s' h
      obtain ⟨fetched, sent, hbatches⟩ := h
      exact ⟨fetched, sent, hends _ s' _ _ hbatches _ (fun _ => error_ne_ok)⟩
  · intro e s' h
    refine ⟨[], [], ?_, ?_, List.nil_prefix, List.nil_prefix, ?_, ?_, fun _ => error_ne_ok⟩
    · rw [h.fetched_eq, List.append_nil]
    · rw [h.sent_eq, List.append_nil]
    · rw [List.map_nil, List.append_nil]
      exact s.table.nodup_txids
    · refine ⟨s'.table.rows, [], (List.append_nil _).symm, rfl, ?_⟩
      refine h.table.imp (fun htable => by rw [htable]) (fun htable => ?_)
      rw [htable, rows_deleteAbsent_dedup]

/-! ## Section 3: Every way out -/

theorem settles_query {α : Type} (run : State d → α × State d) : Proc.Settles (query run) :=
  fun _ _ => wp_query trivial (fun _ => trivial) (fun _ => trivial)

theorem settles_getConnection : Proc.Settles (getConnection : Steps d PUnit) := by
  intro env s
  unfold Proc.wp getConnection
  cases env.connection s.calls with
  | error error => trivial
  | ok leftover => trivial

theorem settles_insertRow (row : PendingRow) : Proc.Settles (insertRow row : Steps d Bool) :=
  fun _ _ => wp_insertRow (wp_carry (fun _ => trivial) (fun _ _ => trivial) (fun _ _ => trivial))

theorem settles_dropMempoolSnapshot : Proc.Settles (dropMempoolSnapshot : Steps d PUnit) :=
  Proc.settles_tryCatch (settles_query _) (fun _ => Proc.settles_pure _)

theorem settles_deleteAndCompareTxsNotInList (txidList : List Hash) :
    Proc.Settles (deleteAndCompareTxsNotInList txidList : Steps d (ℕ × List Hash)) := by
  refine Proc.settles_bind settles_getConnection (fun _ => ?_)
  refine Proc.settles_bind (Proc.settles_tryCatch ?_ ?_)
    (fun _ => Proc.settles_bind settles_dropMempoolSnapshot (fun _ => Proc.settles_pure _))
  · refine Proc.settles_bind ?_ (fun _ => ?_)
    · refine Proc.settles_bind (settles_query _) (fun _ => Proc.settles_bind (settles_query _)
        (fun _ => Proc.settles_ite ?_ (Proc.settles_pure _)))
      exact Slices.settles_eachSlice (by decide) _ (fun _ _ => settles_query _) _
    · refine Proc.settles_bind (settles_query _) (fun _ => Proc.settles_bind ?_
        (fun _ => Proc.settles_ite (Proc.settles_pure _) (Proc.settles_pure _)))
      exact Proc.settles_ite (settles_query _) (Proc.settles_pure _)
  · exact fun err => Proc.settles_bind settles_dropMempoolSnapshot (fun _ => Proc.settles_throw _)

theorem settles_insertMempoolTransaction (row : PendingRow) :
    Proc.Settles (insertMempoolTransaction row : Steps d Bool) :=
  Proc.settles_bind settles_getConnection (fun _ =>
    Proc.settles_tryCatch (settles_insertRow row) (fun _ => Proc.settles_pure _))

theorem settles_storeMempoolTransaction (nodeTxid : Option Hash) (nextTxHex : List UInt8) :
    Proc.Settles (storeMempoolTransaction nodeTxid nextTxHex : Steps d Bool) := by
  refine Proc.settles_bind Proc.settles_read (fun env => ?_)
  cases readMempoolTransaction d env nodeTxid nextTxHex with
  | none => exact Proc.settles_pure _
  | some found =>
    exact Proc.settles_bind (settles_insertMempoolTransaction _) (fun _ => Proc.settles_pure _)

theorem settles_storeAnswers (chunk : List Hash) (answers : List (Option (List UInt8))) :
    ∀ i count, Proc.Settles (storeAnswers chunk i answers count : Steps d ℕ) := by
  induction answers with
  | nil => exact fun i count => Proc.settles_pure _
  | cons answer answers ih =>
    intro i count
    cases answer with
    | none => exact ih (i + 1) count
    | some nextTxHex =>
      exact Proc.settles_bind (settles_storeMempoolTransaction _ nextTxHex) (fun _ => ih (i + 1) _)

theorem settles_storeMempoolBatches (rawMempool : List Hash) :
    Proc.Settles (storeMempoolBatches rawMempool : Steps d ℕ) := by
  refine Slices.settles_eachSlice (by decide) rawMempool (fun chunk count => ?_) 0
  refine Proc.settles_bind (fun _ _ => trivial) (fun answer => ?_)
  cases answer with
  | error error => exact Proc.settles_pure _
  | ok nextTxsHex => exact settles_storeAnswers chunk nextTxsHex 0 count

theorem settles_refreshMempoolRows (rawMempool : List Hash) (nodeMempoolCount : ℕ) :
    Proc.Settles (refreshMempoolRows rawMempool nodeMempoolCount : Steps d Report) :=
  Proc.settles_bind (settles_deleteAndCompareTxsNotInList rawMempool) (fun _ =>
    Proc.settles_bind (settles_storeMempoolBatches _) (fun _ => Proc.settles_pure _))

/-- The database answers every call but the INSERTs, which may fail. -/
structure Outside.Reachable (env : Outside) : Prop where
  connects : ∀ n, ∃ leftover, env.connection n = .ok leftover
  answers  : ∀ n, env.answer n = .answers

section Reachable

variable (h : env.Reachable)
include h

theorem answers_query {α : Type} (run : State d → α × State d) :
    Proc.Answers env (query run) (fun _ => True) := by
  intro s
  unfold query carry
  rw [h.answers s.calls]
  exact ⟨_, _, rfl, trivial⟩

theorem answers_getConnection :
    Proc.Answers env (getConnection : Steps d PUnit) (fun _ => True) := by
  intro s
  obtain ⟨leftover, hconnects⟩ := h.connects s.calls
  unfold getConnection
  rw [hconnects]
  exact ⟨_, _, rfl, trivial⟩

theorem answers_dropMempoolSnapshot :
    Proc.Answers env (dropMempoolSnapshot : Steps d PUnit) (fun _ => True) :=
  Proc.answers_tryCatch (answers_query h _)

theorem answers_deleteAndCompareTxsNotInList (txidList : List Hash) :
    Proc.Answers env (deleteAndCompareTxsNotInList txidList : Steps d (ℕ × List Hash))
      (fun _ => True) := by
  refine Proc.answers_bind (answers_getConnection h) (fun _ _ => ?_)
  refine Proc.answers_bind (R := fun _ => True) (Proc.answers_tryCatch ?_) (fun _ _ =>
    Proc.answers_bind (answers_dropMempoolSnapshot h) (fun _ _ => Proc.answers_pure trivial))
  refine Proc.answers_bind (R := fun _ => True) ?_ (fun _ _ => ?_)
  · refine Proc.answers_bind (answers_query h _) (fun _ _ => Proc.answers_bind (answers_query h _)
      (fun _ _ => Proc.answers_ite ?_ (Proc.answers_pure trivial)))
    exact Slices.answers_eachSlice (by decide) _ (fun _ _ => answers_query h _) _
  · refine Proc.answers_bind (answers_query h _) (fun _ _ => Proc.answers_bind (R := fun _ => True) ?_
      (fun _ _ => Proc.answers_ite (Proc.answers_pure trivial) (Proc.answers_pure trivial)))
    exact Proc.answers_ite (answers_query h _) (Proc.answers_pure trivial)

theorem answers_storeMempoolTransaction (nodeTxid : Option Hash) (nextTxHex : List UInt8) :
    Proc.Answers env (storeMempoolTransaction nodeTxid nextTxHex : Steps d Bool)
      (fun _ => True) := by
  refine Proc.answers_bind (Proc.answers_read (Q := fun _ => True) trivial) (fun env' _ => ?_)
  cases readMempoolTransaction d env' nodeTxid nextTxHex with
  | none => exact Proc.answers_pure trivial
  | some found =>
    refine Proc.answers_bind (R := fun _ => True) ?_ (fun _ _ => Proc.answers_pure trivial)
    -- an INSERT that fails is answered false
    exact Proc.answers_bind (answers_getConnection h) (fun _ _ =>
      Proc.answers_handled (settles_insertRow _) (fun _ => Proc.answers_pure trivial))

theorem answers_storeAnswers (chunk : List Hash) (answers : List (Option (List UInt8))) :
    ∀ i count, Proc.Answers env (storeAnswers chunk i answers count : Steps d ℕ)
      (fun _ => True) := by
  induction answers with
  | nil => exact fun i count => Proc.answers_pure trivial
  | cons answer answers ih =>
    intro i count
    cases answer with
    | none => exact ih (i + 1) count
    | some nextTxHex =>
      exact Proc.answers_bind (answers_storeMempoolTransaction h _ nextTxHex)
        (fun _ _ => ih (i + 1) _)

theorem answers_refreshMempoolRows (rawMempool : List Hash) (nodeMempoolCount : ℕ) :
    Proc.Answers env (refreshMempoolRows rawMempool nodeMempoolCount : Steps d Report)
      (fun _ => True) := by
  refine Proc.answers_bind (answers_deleteAndCompareTxsNotInList h rawMempool) (fun _ _ => ?_)
  refine Proc.answers_bind (R := fun _ => True) ?_ (fun _ _ => Proc.answers_pure trivial)
  refine Slices.answers_eachSlice (by decide) _ (fun chunk count => ?_) 0
  refine Proc.answers_bind (R := fun _ => True) (fun s => ⟨_, _, rfl, trivial⟩) (fun answer _ => ?_)
  cases answer with
  | error error => exact Proc.answers_pure trivial
  | ok nextTxsHex => exact answers_storeAnswers h chunk nextTxsHex 0 count

theorem answers_refreshAndRelease (rawMempool : List Hash) :
    Proc.Answers env (refreshAndRelease rawMempool : Steps d Report) (fun _ => True) :=
  Proc.answers_bind (R := fun _ => True)
    (Proc.answers_tryCatch (answers_refreshMempoolRows h rawMempool _))
    (fun _ _ => Proc.answers_bind (R := fun _ => True) (Proc.answers_modify trivial)
      (fun _ _ => Proc.answers_pure trivial))

end Reachable

/-! ## Section 4: The main theorem -/

theorem wp_refreshAndRelease (raw : List Hash) (s : State d) :
    (refreshAndRelease (dedupNodeMempool d raw)).wp env s (fun ended s' =>
      s'.mempoolBusy = false ∧ Proc.settled ended ∧
      ∃ fetched sent, Refreshed raw s env ended s' fetched sent) := by
  have hclose : ∀ (ended : Except (Stop String) Report) (s' : State d),
      (∃ fetched sent, Refreshed raw s env ended s' fetched sent) →
      ∃ fetched sent, Refreshed raw s env ended { s' with mempoolBusy := false } fetched sent := by
    intro ended s' h
    obtain ⟨fetched, sent, hran⟩ := h
    exact ⟨fetched, sent, hran.fetched_eq, hran.sent_eq, hran.asked, hran.stored, hran.once,
      hran.rows, hran.complete⟩
  unfold refreshAndRelease
  -- the handler clears the flag of a refresh that throws, the step behind it of one that ends
  refine Proc.wp_seq (P := fun ended s' => Proc.settled ended ∧
    (∃ fetched sent, Refreshed raw s env ended s' fetched sent) ∧
    ((∃ e, ended = .error e) → s'.mempoolBusy = false)) ?_ ?_ ?_
  · refine Proc.wp_guard (Proc.wp_and (wp_refreshMempoolRows raw s)
      (settles_refreshMempoolRows _ _ env s)) ?_ ?_ ?_ ?_
    · intro report s' h
      exact ⟨trivial, h.1, fun hthrown => hthrown.elim (fun _ heq => error_ne_ok heq.symm)⟩
    · exact fun err s' h => ⟨trivial, hclose _ s' h.1, fun _ => rfl⟩
    · exact fun s' h => h.2.elim
    · exact fun s' h => h.2.elim
  · exact fun report s' h => ⟨rfl, trivial, hclose _ s' h.2.1⟩
  · exact fun e s' h => ⟨h.2.2 ⟨e, rfl⟩, h.1, h.2.1⟩

/-- The surroundings where the node lists `raw`. -/
def Outside.listing (env : Outside) (raw : List Hash) : Outside :=
  { env with getRawMempool := .ok (some raw) }

/-- A cycle of an idle decoder, over what the node lists. -/
theorem updateMempool_listing (env : Outside) (s : State d) (raw : List Hash) :
    (updateMempool : Steps d (Option Report)) (env.listing raw) { s with mempoolBusy := false } =
      (refreshAndRelease (dedupNodeMempool d raw) >>= fun report => pure (some report))
        (env.listing raw)
        { s with mempoolBusy := true, nodeMempoolTxCount := (dedupNodeMempool d raw).length } :=
  rfl

theorem wp_updateMempool_listing (env : Outside) (s : State d) (raw : List Hash)
    (Q : Except (Stop String) (Option Report) → State d → Prop) :
    (updateMempool : Steps d (Option Report)).wp (env.listing raw)
        { s with mempoolBusy := false } Q ↔
      (refreshAndRelease (dedupNodeMempool d raw) >>= fun report => pure (some report)).wp
        (env.listing raw)
        { s with mempoolBusy := true, nodeMempoolTxCount := (dedupNodeMempool d raw).length } Q :=
  Iff.rfl

/-- **A refresh loses and duplicates nothing**: for every table, every list of the node
    and every way the queries, the batches and the transactions may fail, the rows are
    those of the list that were stored and those whose INSERT was carried out; a cycle
    asks for what is listed and not stored, each once, and sends each that is delivered
    once. The decoder is idle after it; and a cycle is run to its end wherever the database
    can be reached, whatever the batches, the transactions and the INSERTs come to. -/
theorem refresh_exact (d : Decoder) (env : Outside) (s : State d) (raw : List Hash) :
    ((dedupNodeMempool d raw).Nodup ∧ ∀ txid, txid ∈ dedupNodeMempool d raw ↔ txid ∈ raw) ∧
    (updateMempool : Steps d (Option Report)).wp (env.listing raw) { s with mempoolBusy := false }
      (fun ended s' => s'.mempoolBusy = false ∧ ∃ done fetched sent,
        ended = done.map some ∧ Proc.settled done ∧
        Refreshed raw s (env.listing raw) done s' fetched sent) ∧
    (env.Reachable → ∃ report s', (updateMempool : Steps d (Option Report)) (env.listing raw)
      { s with mempoolBusy := false } = (.ok (some report), s')) := by
  refine ⟨⟨nodup_dedupNodeMempool d raw, mem_dedupNodeMempool d raw⟩, ?_, fun hreachable => ?_⟩
  · rw [wp_updateMempool_listing]
    refine Proc.wp_seq (wp_refreshAndRelease raw _) ?_ ?_
    · intro report s' h
      obtain ⟨hidle, hsettled, fetched, sent, hran⟩ := h
      exact ⟨hidle, .ok report, fetched, sent, rfl, trivial, hran.fetched_eq, hran.sent_eq,
        hran.asked, hran.stored, hran.once, hran.rows, hran.complete⟩
    · intro e s' h
      obtain ⟨hidle, hsettled, fetched, sent, hran⟩ := h
      exact ⟨hidle, .error e, fetched, sent, rfl, hsettled, hran.fetched_eq, hran.sent_eq,
        hran.asked, hran.stored, hran.once, hran.rows, hran.complete⟩
  · have hlisting : (env.listing raw).Reachable := ⟨hreachable.connects, hreachable.answers⟩
    obtain ⟨report, s', hrun, -⟩ := answers_refreshAndRelease hlisting (dedupNodeMempool d raw)
      { s with mempoolBusy := true, nodeMempoolTxCount := (dedupNodeMempool d raw).length }
    exact ⟨report, s', (updateMempool_listing env s raw).trans (Proc.run_bind hrun)⟩

end XChainDecoder.Mempool
