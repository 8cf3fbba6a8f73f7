import XChainDecoder.Wire.Flagged

/-! # Reading a block

    A Litecoin block is a header, a count, its transactions in the plain form, and
    possibly a HogEx in last place, in the flagged form with a null tag and followed
    by the extension block. `blockFromBuffer` reads back exactly the transactions;
    it takes bytes behind the last of them for an extension block only behind a
    HogEx, and a block that was cut off is refused wherever the cut is, save behind
    the header and inside the extension block.

    Main results: `blockFromBuffer_reads`, `blockFromBuffer_trailing`,
    `blockFromBuffer_cut`, `blockFromBuffer_readsInside`. -/

namespace XChainDecoder.Wire

open Bytes

variable {js : BitcoinJs} {buf buf' : Buffer} {offset : ℕ} {t : Transaction} {rest : List UInt8}

/-! ## Section 1: Telling the two forms apart -/

theorem hasMwebFlag_of_bytes {a b : UInt8} {version : UInt32}
    (h : At buf.bytes offset (uint32Bytes version ++ (a :: b :: rest))) :
    hasMwebFlag buf offset = .ok (decide ((version = 1 ∨ version = 2) ∧ a = 0x00 ∧
      (b = LITECOIN_HOGEX_FLAG ∨ b = LITECOIN_MWEB_SEGWIT_FLAG))) := by
  have hlen := h.length
  simp only [List.length_append, length_uint32Bytes, List.length_cons] at hlen
  have hmarker : At buf.bytes (offset + 4) (a :: b :: rest) := by
    have := h.advance
    rwa [length_uint32Bytes] at this
  have hflag : At buf.bytes (offset + 5) (b :: rest) := @At.advance _ _ [a] _ hmarker
  rw [hasMwebFlag, if_neg (by rw [Buffer.length]; omega)]
  simp only [bind, Except.bind, pure, Except.pure, Buffer.readUInt32LE_at h,
    Buffer.byteAt_at hflag, Buffer.byteAt_at hmarker]

/-- A flagged form is seen as one. -/
theorem hasMwebFlag_flagged (hversion : t.version = 1 ∨ t.version = 2)
    (h : At buf.bytes offset (t.flaggedHead ++ rest)) : hasMwebFlag buf offset = .ok true := by
  simp only [Transaction.flaggedHead, List.append_assoc, List.cons_append, List.nil_append] at h
  have hbits : t.version.toUInt32 = 1 ∨ t.version.toUInt32 = 2 := by
    rcases hversion with hv | hv
    · left
      rw [hv]
      rfl
    · right
      rw [hv]
      rfl
  have hflag : t.mwebFlag = LITECOIN_HOGEX_FLAG ∨ t.mwebFlag = LITECOIN_MWEB_SEGWIT_FLAG := by
    unfold Transaction.mwebFlag
    split_ifs
    · exact .inr rfl
    · exact .inl rfl
  rw [hasMwebFlag_of_bytes h, decide_eq_true ⟨hbits, rfl, hflag⟩]

/-- A plain form never is: behind the version stands a count that is not zero, or the
    marker with flag 0x01. -/
theorem hasMwebFlag_plain (hins : t.ins ≠ []) (h : At buf.bytes offset (t.plain ++ rest)) :
    hasMwebFlag buf offset = .ok false := by
  have hcount : t.ins.length ≠ 0 := fun hzero => hins (List.length_eq_zero_iff.mp hzero)
  simp only [Transaction.plain, List.append_assoc] at h
  by_cases hwitness : t.hasWitnesses = true
  · rw [if_pos hwitness] at h
    have hflag : ¬((1 : UInt8) = LITECOIN_HOGEX_FLAG ∨ (1 : UInt8) = LITECOIN_MWEB_SEGWIT_FLAG) := by
      decide
    rw [hasMwebFlag_of_bytes h, decide_eq_false (fun hall => hflag hall.2.2)]
  · rw [if_neg hwitness] at h
    rcases compactSize_head hcount with ⟨b, tail, hhead, hb⟩
    have houts := length_compactSize_pos t.outs.length
    -- whatever the byte behind the first byte of the count is
    obtain ⟨c, after, hafter⟩ : ∃ c after, tail ++ (t.ins.flatMap TxIn.bytes ++
        (t.vout ++ (t.witnesses ++ (uint32Bytes t.locktime ++ rest)))) = c :: after := by
      apply List.exists_cons_of_ne_nil
      intro hnil
      have := congrArg List.length hnil
      simp only [List.length_append, length_uint32Bytes, List.length_nil] at this
      omega
    simp only [Transaction.body, Transaction.vin, counted, hhead, List.append_assoc,
      List.cons_append, List.nil_append, hafter] at h
    rw [hasMwebFlag_of_bytes h]
    simp [hb]

theorem hasMwebFlag_short (h : (buf.length : ℤ) - offset < 6) : hasMwebFlag buf offset = .ok false :=
  if_pos h

theorem hasMwebFlag_cut (hcut : buf.IsPrefix buf') (h : ¬(buf.length : ℤ) - offset < 6) :
    hasMwebFlag buf offset = hasMwebFlag buf' offset := by
  have hle := hcut.length_le
  rcases Buffer.byteAt_of_lt (show offset + 5 < buf.length by omega) with ⟨flag, hflag⟩
  rcases Buffer.byteAt_of_lt (show offset + 4 < buf.length by omega) with ⟨marker, hmarker⟩
  have hversion := Buffer.readUIntLE_of_le (show offset + 4 ≤ buf.length by omega)
  rw [hasMwebFlag, hasMwebFlag, if_neg h, if_neg (by omega)]
  simp only [Buffer.readUInt32LE, hversion, Buffer.readUIntLE_extends hcut _ _ _ hversion, hflag,
    hmarker, Buffer.byteAt_extends hcut _ _ hflag, Buffer.byteAt_extends hcut _ _ hmarker]

/-! ## Section 2: A block as it is written -/

/-- The last transaction, in the flagged form. -/
def hogExBytes : Option Transaction → List UInt8
  | none   => []
  | some t => t.flagged .null

/-- A block of a Litecoin chain. Only a HogEx, in last place, may have no inputs, and
    only behind a HogEx does an extension block follow. -/
structure MwebBlock (js : BitcoinJs) where
  header    : BlockHeader
  txs       : List Transaction
  hogEx     : Option Transaction
  extension : List UInt8
  hasInputs : ∀ t ∈ txs, t.ins ≠ []
  version   : ∀ t, hogEx = some t → t.version = 1 ∨ t.version = 2
  nonempty  : txs ++ hogEx.toList ≠ []
  bare      : hogEx = none → extension = []
  root      : header.merkleRoot = js.calculateMerkleRoot (txs ++ hogEx.toList)

namespace MwebBlock

def transactions (b : MwebBlock js) : List Transaction := b.txs ++ b.hogEx.toList

/-- Up to the extension block. -/
def core (b : MwebBlock js) : List UInt8 :=
  b.header.bytes ++ (compactSize b.transactions.length ++
    (b.txs.flatMap Transaction.plain ++ hogExBytes b.hogEx))

def bytes (b : MwebBlock js) : List UInt8 := b.core ++ b.extension

end MwebBlock

theorem mul_length_le_body (txs : List Transaction) (hogEx : Option Transaction) :
    10 * (txs ++ hogEx.toList).length ≤
      (txs.flatMap Transaction.plain ++ hogExBytes hogEx).length := by
  have htxs := mul_length_le_flatMap (fun t (_ : t ∈ txs) => Transaction.length_plain t)
  rw [List.length_append, List.length_append]
  cases hogEx with
  | none =>
    simp only [Option.toList_none, List.length_nil]
    omega
  | some t =>
    have hhogEx := Transaction.length_flagged t .null
    simp only [Option.toList_some, List.length_singleton, hogExBytes]
    omega

/-! ## Section 3: Reading it back -/

theorem readMwebBody_at (hjs : js.Correct) {txs : List Transaction} {hogEx : Option Transaction}
    (hins : ∀ t ∈ txs, t.ins ≠ []) (hversion : ∀ t, hogEx = some t → t.version = 1 ∨ t.version = 2)
    (h : At buf.bytes offset (txs.flatMap Transaction.plain ++ (hogExBytes hogEx ++ rest))) :
    readMwebBody js buf (txs ++ hogEx.toList).length offset =
      .ok ⟨txs ++ hogEx.toList,
        offset + (txs.flatMap Transaction.plain ++ hogExBytes hogEx).length, hogEx.isSome⟩ := by
  induction txs generalizing offset with
  | nil =>
    cases hogEx with
    | none => rfl
    | some t =>
      have hhead : At buf.bytes offset (t.flaggedHead ++
          (MwebPart.bytes .null ++ (uint32Bytes t.locktime ++ rest))) := by
        simpa only [List.flatMap_nil, List.nil_append, hogExBytes, Transaction.flagged,
          List.append_assoc] using h
      have hflagged : At buf.bytes offset (t.flagged .null ++ rest) := by
        simpa only [List.flatMap_nil, List.nil_append, hogExBytes] using h
      simp only [List.nil_append, Option.toList_some, List.length_singleton, readMwebBody,
        if_pos, hasMwebFlag_flagged (hversion t rfl) hhead,
        readMwebFlaggedTransaction_null hjs hflagged, bind, Except.bind, pure, Except.pure]
      rfl
  | cons t txs ih =>
    have htIns := hins t (List.mem_cons_self ..)
    simp only [List.flatMap_cons, List.append_assoc] at h
    have hflag : (if (txs ++ hogEx.toList).length = 0 then hasMwebFlag buf offset else .ok false) =
        .ok false := by
      split_ifs
      · exact hasMwebFlag_plain htIns h
      · rfl
    have hread : js.transactionFromBuffer (buf.bytes.drop offset) true = .ok t := by
      have hlen := h.length
      have hsafe := buf.safe
      rw [h.2]
      exact hjs.reads t _ true htIns (by omega) (.inl rfl)
    have hrest := ih (fun t' ht' => hins t' (List.mem_cons_of_mem _ ht')) h.advance
    simp only [List.cons_append, List.length_cons, readMwebBody, hflag, hread, fromBitcoinJs,
      Except.mapError, hjs.byteLength t htIns, hrest, bind, Except.bind, pure, Except.pure]
    simp only [Bool.false_eq_true, if_false, List.flatMap_cons, List.append_assoc,
      List.length_append, Nat.add_assoc]

theorem readHash_at {v : Vector UInt8 32} (h : At buf.bytes offset (v.toList ++ rest)) :
    readHash buf offset = .ok v := by
  have hlen := h.length
  have hv : v.toList.length = 32 := by simp
  rw [List.length_append, hv] at hlen
  have htake := h.take
  rw [hv] at htake
  rw [readHash, dif_pos (by omega)]
  simp only [Except.ok.injEq]
  apply Vector.toList_inj.mp
  show ((buf.bytes.drop offset).take 32) = v.toList
  exact htake

theorem readHeader_at {header : BlockHeader} (h : At buf.bytes 0 (header.bytes ++ rest)) :
    readHeader buf = .ok header := by
  simp only [BlockHeader.bytes, List.append_assoc] at h
  have hprev := h.advance
  have hroot := hprev.advance
  have htime := hroot.advance
  have hbits := htime.advance
  have hnonce := hbits.advance
  simp only [length_uint32Bytes, Vector.length_toList, Nat.zero_add, Nat.reduceAdd] at hprev hroot htime hbits hnonce
  have hversion : buf.readInt32LE 0 = .ok header.version := by
    rw [Buffer.readInt32LE, Buffer.readUInt32LE_at h]
    show Except.ok header.version.toUInt32.toInt32 = _
    rw [Int32.toInt32_toUInt32]
  simp only [readHeader, hversion, readHash_at hprev, readHash_at hroot,
    Buffer.readUInt32LE_at htime, Buffer.readUInt32LE_at hbits, Buffer.readUInt32LE_at hnonce,
    bind, Except.bind, pure, Except.pure]

theorem readMwebTransactions_at (hjs : js.Correct) (b : MwebBlock js)
    (h : At buf.bytes 0 (b.core ++ rest)) :
    readMwebTransactions js buf 80 =
      .ok ⟨b.transactions, b.core.length, b.hogEx.isSome⟩ := by
  simp only [MwebBlock.core, List.append_assoc] at h
  have hcount := h.advance
  rw [BlockHeader.length_bytes, Nat.zero_add] at hcount
  have hbody := hcount.advance
  have hmany := mul_length_le_body b.txs b.hogEx
  have hlen := hbody.length
  have hsafe := buf.safe
  simp only [List.length_append] at hlen hmany
  have hlength : b.transactions.length = b.txs.length + b.hogEx.toList.length := by
    rw [MwebBlock.transactions, List.length_append]
  have hn : b.transactions.length ≤ MAX_SAFE_INTEGER := by omega
  have hread : readMwebBody js buf b.transactions.length _ = .ok ⟨b.transactions, _, _⟩ :=
    readMwebBody_at hjs b.hasInputs b.version hbody
  simp only [readMwebTransactions, hjs.readsCount _ _ _ _ hn hcount, fromBitcoinJs,
    Except.mapError, bind, Except.bind]
  rw [if_neg]
  · rw [hread, MwebBlock.core]
    simp only [List.length_append, BlockHeader.length_bytes, Nat.add_assoc]
  · rw [Buffer.length]
    omega

/-- What follows the transactions of a block decides. -/
theorem blockFromBuffer_core (hjs : js.Correct) (b : MwebBlock js)
    (h : buf.bytes = b.core ++ rest) :
    blockFromBuffer js .mweb buf =
      if rest ≠ [] ∧ b.hogEx = none then
        .error (.error ("Block has " ++ toString (rest.length : ℤ) ++
          " bytes after its last transaction"))
      else .ok ⟨b.header, some b.transactions, js.getWitnessCommit b.transactions⟩ := by
  have hat : At buf.bytes 0 (b.core ++ rest) := by
    rw [← h]
    exact at_zero _
  have hheader : At buf.bytes 0 (b.header.bytes ++ (compactSize b.transactions.length ++
      (b.txs.flatMap Transaction.plain ++ hogExBytes b.hogEx) ++ rest)) := by
    simpa only [MwebBlock.core, List.append_assoc] using hat
  have hpos := length_compactSize_pos b.transactions.length
  have hlen := hat.length
  have hlong : 80 < b.core.length := by
    simp only [MwebBlock.core, List.length_append, BlockHeader.length_bytes]
    omega
  rw [List.length_append] at hlen
  have hsome : ¬b.transactions.length < 1 := by
    have := List.length_pos_of_ne_nil b.nonempty
    show ¬(b.txs ++ b.hogEx.toList).length < 1
    omega
  have hroot : ¬js.calculateMerkleRoot b.transactions ≠ b.header.merkleRoot := by
    simp only [ne_eq, not_not]
    exact b.root.symm
  simp only [blockFromBuffer, bind, Except.bind, pure, Except.pure]
  rw [if_neg (by rw [Buffer.length]; omega), readHeader_at hheader]
  simp only []
  rw [if_neg (by rw [Buffer.length]; omega), readMwebTransactions_at hjs b hat]
  simp only [wrapParse, Except.mapError, assertBlockBodyIntact, if_neg hsome, if_neg hroot]
  have hrest : b.core.length ≠ buf.length ↔ rest ≠ [] := by
    rw [Buffer.length, ← List.length_pos_iff_ne_nil]
    omega
  -- bytes behind the transactions are refused, unless a hogEx announces an extension
  by_cases hbad : rest ≠ [] ∧ b.hogEx = none
  · have hnone : b.hogEx.isSome = false := by rw [hbad.2]; rfl
    rw [if_pos hbad, if_pos ⟨hrest.mpr hbad.1, hnone⟩]
    have hrem : (buf.length : ℤ) - b.core.length = rest.length := by
      rw [Buffer.length]
      omega
    rw [hrem]
  · rw [if_neg hbad, if_neg]
    rintro ⟨hafter, hnone⟩
    apply hbad
    exact ⟨hrest.mp hafter, by simpa using hnone⟩

/-! ## Section 4: A block that was cut off -/

/-- The bytes before the flag byte of a flagged form also begin a plain form, one
    with a witness. -/
theorem versionBytes_prefix_plain (t : Transaction) : ∃ t' : Transaction, t'.ins ≠ [] ∧
    t'.plain.length ≤ MAX_SAFE_INTEGER ∧ t.versionBytes ++ [0x00] <+: t'.plain := by
  refine ⟨⟨t.version, [⟨Vector.replicate 32 0, 0, [], 0, [[]]⟩], [], 0⟩, by simp, ?_, ?_⟩
  · have hlen : (Transaction.plain
        ⟨t.version, [⟨Vector.replicate 32 0, 0, [], 0, [[]]⟩], [], 0⟩).length = 55 := rfl
    rw [hlen]
    decide
  · rw [Transaction.plain, if_pos (by rfl)]
    exact ⟨0x01 :: _, by simp only [List.append_assoc, List.cons_append, List.nil_append]; rfl⟩

/-- A plain form that was cut off is refused by bitcoinjs. -/
theorem transactionFromBuffer_cut (hjs : js.Correct) (hins : t.ins ≠ []) {bs more : List UInt8}
    (h : bs ++ more = t.plain) (hmore : more ≠ []) (hsafe : t.plain.length ≤ MAX_SAFE_INTEGER)
    (noStrict : Bool) : ∃ e, fromBitcoinJs (js.transactionFromBuffer bs noStrict) = .error e := by
  rcases hjs.rejects t bs more noStrict hins h hmore hsafe with ⟨message, hmessage⟩
  rw [hmessage]
  exact ⟨.error message, rfl⟩

/-- Five bytes of a flagged form or fewer are refused by bitcoinjs too. -/
theorem transactionFromBuffer_flaggedStart (hjs : js.Correct) {bs : List UInt8}
    (h : bs <+: t.flaggedHead) (hshort : bs.length < 6) (noStrict : Bool) :
    ∃ e, fromBitcoinJs (js.transactionFromBuffer bs noStrict) = .error e := by
  rcases versionBytes_prefix_plain t with ⟨t', hins, hsafe, hstarts⟩
  have hfive : bs <+: t.versionBytes ++ [0x00] := by
    have hstart : t.versionBytes ++ [0x00] <+: t.flaggedHead := by
      refine ⟨t.mwebFlag :: t.body, ?_⟩
      simp only [Transaction.flaggedHead, List.append_assoc, List.cons_append, List.nil_append]
    apply List.prefix_of_prefix_length_le h hstart
    simp only [List.length_append, Transaction.length_versionBytes, List.length_cons,
      List.length_nil]
    omega
  rcases hfive.trans hstarts with ⟨more, hmore⟩
  apply transactionFromBuffer_cut hjs hins hmore _ hsafe
  intro hnil
  have hlong := Transaction.length_plain t'
  rw [← hmore, hnil, List.append_nil] at hlong
  omega

theorem readMwebBody_cut (hjs : js.Correct) {txs : List Transaction} {hogEx : Option Transaction}
    (hins : ∀ t ∈ txs, t.ins ≠ []) (hversion : ∀ t, hogEx = some t → t.version = 1 ∨ t.version = 2)
    (h : At buf'.bytes offset (txs.flatMap Transaction.plain ++ (hogExBytes hogEx ++ rest)))
    (hcut : buf.IsPrefix buf') (hin : offset ≤ buf.length)
    (hshort : buf.length < offset + (txs.flatMap Transaction.plain ++ hogExBytes hogEx).length) :
    ∃ e, readMwebBody js buf (txs ++ hogEx.toList).length offset = .error e := by
  induction txs generalizing offset with
  | nil =>
    cases hogEx with
    | none =>
      simp only [List.flatMap_nil, hogExBytes, List.append_nil, List.length_nil] at hshort
      omega
    | some t =>
      simp only [List.flatMap_nil, List.nil_append, hogExBytes] at h hshort
      simp only [List.nil_append, Option.toList_some, List.length_singleton, readMwebBody, if_pos]
      -- only the hogEx is left: too short for its flag, or cut behind it
      by_cases hfew : (buf.length : ℤ) - offset < 6
      · have hstart : buf.bytes.drop offset <+: t.flaggedHead := by
          have hflagged : At buf'.bytes offset (t.flaggedHead ++
              (MwebPart.bytes .null ++ (uint32Bytes t.locktime ++ rest))) := by
            simpa only [Transaction.flagged, List.append_assoc] using h
          have hhead := length_flaggedHead t
          rcases hflagged.cut hcut hin with ⟨after, hafter, -⟩ | ⟨more, -, hmore⟩
          · have hlen := hafter.length
            rw [List.length_append] at hlen
            rw [Buffer.length] at hfew
            omega
          · exact ⟨more, hmore⟩
        have hfive : (buf.bytes.drop offset).length < 6 := by
          rw [List.length_drop]
          rw [Buffer.length] at hfew
          omega
        rcases transactionFromBuffer_flaggedStart hjs hstart hfive true with ⟨e, he⟩
        rw [hasMwebFlag_short hfew]
        simp only [bind, Except.bind, he]
        exact ⟨e, rfl⟩
      · have hhead : At buf'.bytes offset (t.flaggedHead ++
            (MwebPart.bytes .null ++ (uint32Bytes t.locktime ++ rest))) := by
          simpa only [Transaction.flagged, List.append_assoc] using h
        rcases @readMwebFlaggedTransaction_null_cut js buf buf' offset t rest h hcut hin hshort false
          with ⟨e, he⟩
        rw [hasMwebFlag_cut hcut hfew, hasMwebFlag_flagged (hversion t rfl) hhead]
        simp only [bind, Except.bind, he]
        exact ⟨e, rfl⟩
  | cons t txs ih =>
    have htIns := hins t (List.mem_cons_self ..)
    simp only [List.flatMap_cons, List.append_assoc] at h
    have hsafe : t.plain.length ≤ MAX_SAFE_INTEGER := Buffer.at_safe h
    have hflag : (if (txs ++ hogEx.toList).length = 0 then hasMwebFlag buf offset else .ok false) =
        .ok false := by
      split_ifs
      · by_cases hfew : (buf.length : ℤ) - offset < 6
        · exact hasMwebFlag_short hfew
        · rw [hasMwebFlag_cut hcut hfew]
          exact hasMwebFlag_plain htIns h
      · rfl
    simp only [List.cons_append, List.length_cons, readMwebBody, hflag, bind, Except.bind,
      Bool.false_eq_true, if_false]
    rcases h.cut hcut hin with ⟨after, hafter, -⟩ | ⟨more, hmore, hinside⟩
    · -- the transaction is there, so the cut is behind it
      have hread : js.transactionFromBuffer (buf.bytes.drop offset) true = .ok t := by
        have hlen := hafter.length
        have hbuf := buf.safe
        rw [hafter.2]
        exact hjs.reads t _ true htIns (by omega) (.inl rfl)
      have hlen := hafter.length
      simp only [List.flatMap_cons, List.append_assoc, List.length_append] at hshort hlen
      have hrest := ih (fun t' ht' => hins t' (List.mem_cons_of_mem _ ht')) h.advance
        (by rw [Buffer.length]; omega) (by rw [List.length_append]; omega)
      rcases hrest with ⟨e, he⟩
      simp only [hread, fromBitcoinJs, Except.mapError, hjs.byteLength t htIns, he]
      exact ⟨e, rfl⟩
    · rcases transactionFromBuffer_cut hjs htIns hinside hmore hsafe true with ⟨e, he⟩
      rw [he]
      exact ⟨e, rfl⟩

/-- Cut off before the end of its transactions, a block is refused, save where what
    is left is its header. -/
theorem blockFromBuffer_cut (hjs : js.Correct) (b : MwebBlock js) (h : buf'.bytes = b.bytes)
    (hcut : buf.IsPrefix buf') (hshort : buf.length < b.core.length) (hheader : buf.length ≠ 80) :
    ∃ e, blockFromBuffer js .mweb buf = .error e := by
  simp only [blockFromBuffer]
  by_cases hsmall : buf.length < 80
  · rw [if_pos hsmall]
    exact ⟨_, rfl⟩
  · have hat : At buf'.bytes 0 (b.header.bytes ++ (compactSize b.transactions.length ++
        (b.txs.flatMap Transaction.plain ++ (hogExBytes b.hogEx ++ b.extension)))) := by
      have hwhole := at_zero buf'.bytes
      rw [h] at hwhole ⊢
      simpa only [MwebBlock.bytes, MwebBlock.core, List.append_assoc] using hwhole
    have hcountAt := hat.advance
    rw [BlockHeader.length_bytes, Nat.zero_add] at hcountAt
    have hn : b.transactions.length ≤ MAX_SAFE_INTEGER := by
      have hmany := mul_length_le_body b.txs b.hogEx
      have hlen := hcountAt.length
      have hsafe := buf'.safe
      have hlength : b.transactions.length = b.txs.length + b.hogEx.toList.length := by
        rw [MwebBlock.transactions, List.length_append]
      simp only [List.length_append] at hmany hlen
      omega
    -- cut in the count or in the transactions
    have hbody : ∃ e, readMwebTransactions js buf 80 = .error e := by
      rcases hcountAt.cut hcut (by rw [Buffer.length] at hsmall; omega) with
        ⟨after, hafter, hstarts⟩ | ⟨more, hmore, hinside⟩
      · simp only [readMwebTransactions, hjs.readsCount _ _ _ _ hn hafter, fromBitcoinJs,
          Except.mapError, bind, Except.bind]
        split_ifs with hcount
        · exact ⟨_, rfl⟩
        · have hlen := hafter.length
          rw [List.length_append] at hlen
          apply readMwebBody_cut hjs b.hasInputs b.version hcountAt.advance hcut
          · rw [Buffer.length]
            omega
          · simp only [MwebBlock.core, List.length_append, BlockHeader.length_bytes] at hshort ⊢
            omega
      · rcases hjs.rejectsCount _ _ _ _ more hn ⟨by rw [Buffer.length] at hsmall; omega, rfl⟩
          hinside hmore with ⟨message, hmessage⟩
        simp only [readMwebTransactions, hmessage, fromBitcoinJs, Except.mapError, bind,
          Except.bind]
        exact ⟨_, rfl⟩
    rcases hbody with ⟨e, he⟩
    rw [if_neg hsmall]
    cases hread : readHeader buf with
    | error e => exact ⟨e, rfl⟩
    | ok header =>
      simp only [bind, Except.bind, if_neg hheader, he, wrapParse, Except.mapError]
      exact ⟨_, rfl⟩

/-! ## Section 5: On any buffer -/

/-- Nothing an outcome throws comes from a read past the end. -/
def ReadsInside {α : Type} (r : Except Thrown α) : Prop := ∀ e, r = .error e → e.readsPastEnd = false

theorem ReadsInside.ok {α : Type} (a : α) : ReadsInside (.ok a) := by
  intro e h
  cases h

theorem ReadsInside.bind {α β : Type} {m : Except Thrown α} {f : α → Except Thrown β}
    (hm : ReadsInside m) (hf : ∀ a, m = .ok a → ReadsInside (f a)) : ReadsInside (m >>= f) := by
  cases m with
  | error e =>
    intro e' h
    cases h
    exact hm e rfl
  | ok a => exact hf a rfl

theorem Within.readsInside {α : Type} {length offset : ℕ} {endOf : α → ℕ} {r : Except Thrown α}
    (h : Within length offset endOf r) : ReadsInside r := by
  intro e he
  rw [he] at h
  exact h

theorem readsInside_fromBitcoinJs {α : Type} (r : Except String α) :
    ReadsInside (fromBitcoinJs r) := by
  intro e h
  cases r with
  | error message =>
    cases h
    rfl
  | ok a => cases h

/-- Wrapping an error keeps where it comes from. -/
theorem readsPastEnd_transactionParseError (message : String) (e : Thrown) :
    (transactionParseError message e).readsPastEnd = e.readsPastEnd := by
  cases e <;> rfl

theorem ReadsInside.wrapParse {α : Type} {r : Except Thrown α} (h : ReadsInside r)
    (what : String) : ReadsInside (wrapParse what r) := by
  intro e he
  cases r with
  | error e' =>
    simp only [Wire.wrapParse, Except.mapError, Except.error.injEq] at he
    rw [← he, readsPastEnd_transactionParseError]
    exact h e' rfl
  | ok a => cases he

theorem hasMwebFlag_readsInside : ReadsInside (hasMwebFlag buf offset) := by
  by_cases hfew : (buf.length : ℤ) - offset < 6
  · rw [hasMwebFlag_short hfew]
    exact .ok _
  · rcases Buffer.byteAt_of_lt (show offset + 5 < buf.length by omega) with ⟨flag, hflag⟩
    rcases Buffer.byteAt_of_lt (show offset + 4 < buf.length by omega) with ⟨marker, hmarker⟩
    have hversion := Buffer.readUIntLE_of_le (show offset + 4 ≤ buf.length by omega)
    rw [hasMwebFlag, if_neg hfew]
    simp only [Buffer.readUInt32LE, hversion, hflag, hmarker, Except.map, bind, Except.bind]
    exact .ok _

/-- A form that is seen as flagged has the six bytes its reader starts from. -/
theorem length_of_hasMwebFlag (h : hasMwebFlag buf offset = .ok true) :
    offset + 6 ≤ buf.length := by
  by_cases hfew : (buf.length : ℤ) - offset < 6
  · rw [hasMwebFlag_short hfew] at h
    simp at h
  · omega

theorem readMwebBody_readsInside (n : ℕ) : ReadsInside (readMwebBody js buf n offset) := by
  induction n generalizing offset with
  | zero => exact .ok _
  | succ n ih =>
    have hflag : ReadsInside (if n = 0 then hasMwebFlag buf offset else .ok false) := by
      split_ifs
      · exact hasMwebFlag_readsInside
      · exact .ok _
    apply ReadsInside.bind hflag
    intro flagged hflagged
    by_cases hyes : flagged = true
    · rw [if_pos hyes]
      have hlen : offset + 6 ≤ buf.length := by
        split_ifs at hflagged
        · rw [hyes] at hflagged
          exact length_of_hasMwebFlag hflagged
        · rw [hyes] at hflagged
          simp at hflagged
      apply ReadsInside.bind (readMwebFlaggedTransaction_within hlen false).readsInside
      intro read hread
      exact .ok _
    · rw [if_neg hyes]
      apply ReadsInside.bind (readsInside_fromBitcoinJs _)
      intro tx htx
      apply ReadsInside.bind ih
      intro body hbody
      exact .ok _

theorem readsInside_error {α : Type} (message : String) :
    ReadsInside (.error (.error message) : Except Thrown α) := by
  intro e h
  cases h
  rfl

theorem readMwebTransactions_readsInside : ReadsInside (readMwebTransactions js buf offset) := by
  apply ReadsInside.bind (readsInside_fromBitcoinJs _)
  intro count hcount
  simp only []
  split_ifs
  · exact readsInside_error _
  · exact readMwebBody_readsInside _

theorem assertBlockBodyIntact_readsInside (header : BlockHeader) (txs : List Transaction)
    (bufferLength bodyEnd : ℕ) (extensionFollows : Bool) :
    ReadsInside (assertBlockBodyIntact js header txs bufferLength bodyEnd extensionFollows) := by
  unfold assertBlockBodyIntact
  split_ifs
  · exact readsInside_error _
  · exact readsInside_error _
  · exact readsInside_error _
  · exact .ok _

theorem readHeader_readsInside (h : 80 ≤ buf.length) : ReadsInside (readHeader buf) := by
  have hword : ∀ offset, offset + 4 ≤ buf.length → ∃ n, buf.readUInt32LE offset = .ok n := by
    intro offset hle
    exact ⟨_, by rw [Buffer.readUInt32LE, Buffer.readUIntLE_of_le hle]; rfl⟩
  have hhash : ∀ offset, offset + 32 ≤ buf.length → ∃ v, readHash buf offset = .ok v := by
    intro offset hle
    exact ⟨_, dif_pos hle⟩
  rcases hword 0 (by omega) with ⟨version, hversion⟩
  rcases hhash 4 (by omega) with ⟨prevHash, hprevHash⟩
  rcases hhash 36 (by omega) with ⟨merkleRoot, hmerkleRoot⟩
  rcases hword 68 (by omega) with ⟨timestamp, htimestamp⟩
  rcases hword 72 (by omega) with ⟨bits, hbits⟩
  rcases hword 76 (by omega) with ⟨nonce, hnonce⟩
  simp only [readHeader, Buffer.readInt32LE, hversion, hprevHash, hmerkleRoot, htimestamp, hbits,
    hnonce, Except.map, bind, Except.bind]
  exact .ok _

/-- Whatever the buffer holds, reading a block from it reads nothing past its end. -/
theorem blockFromBuffer_readsInside (format : WireFormat) (buf : Buffer) :
    ReadsInside (blockFromBuffer js format buf) := by
  -- `default` and `auxpow` blocks are read by the library, and then only measured
  have hplain : ReadsInside (do
      let plainBlock ← Wire.wrapParse "Block transaction parse failed: "
        (fromBitcoinJs (js.blockFromBuffer buf.bytes))
      if buf.length = 80 then return plainBlock
      else do
        assertBlockBodyIntact js plainBlock.header (plainBlock.transactions.getD []) buf.length
          (js.blockByteLength plainBlock) false
        return plainBlock) := by
    apply ReadsInside.bind ((readsInside_fromBitcoinJs _).wrapParse _)
    intro block hblock
    by_cases hbare : buf.length = 80
    · rw [if_pos hbare]
      exact .ok _
    · rw [if_neg hbare]
      apply ReadsInside.bind (assertBlockBodyIntact_readsInside _ _ _ _ _)
      intro u hu
      exact .ok _
  cases format with
  | default => exact hplain
  | auxpow => exact hplain
  | mweb =>
    simp only [blockFromBuffer]
    by_cases hsmall : buf.length < 80
    · rw [if_pos hsmall]
      exact readsInside_error _
    · rw [if_neg hsmall]
      apply ReadsInside.bind (readHeader_readsInside (by omega))
      intro header hheader
      by_cases hbare : buf.length = 80
      · rw [if_pos hbare]
        exact .ok _
      · rw [if_neg hbare]
        apply ReadsInside.bind (readMwebTransactions_readsInside.wrapParse _)
        intro body hbody
        apply ReadsInside.bind (assertBlockBodyIntact_readsInside _ _ _ _ _)
        intro u hu
        exact .ok _

end XChainDecoder.Wire
