import XChainDecoder.Wire.Block
import XChainDecoder.Wire.Plain

/-! # What the Litecoin readers answer

    `ExactReading` collects it. A flagged transaction is read back whole, standalone
    or inside a block, from a buffer or from hex; a block is read back whole, and
    bytes behind its last transaction are taken only behind a HogEx. A buffer that
    was cut off is refused, with two exceptions that the readers make on purpose: an
    80-byte buffer is a block header, and the lock time of a standalone transaction
    with an MWEB body is whatever stands in the last four bytes.

    Main result: `exactReading`. -/

namespace XChainDecoder.Wire

open Bytes

section
variable {js : BitcoinJs} {buf buf' : Buffer} {start : ℕ} {t : Transaction} {rest : List UInt8}

/-! ## Section 1: Standalone transactions -/

/-- Four bytes are a lock time. -/
theorem exists_uint32Bytes {bs : List UInt8} (h : bs.length = 4) : ∃ n, uint32Bytes n = bs := by
  have hlt := leNat_lt bs
  rw [h] at hlt
  refine ⟨UInt32.ofNat (leNat bs), ?_⟩
  have hnat : (UInt32.ofNat (leNat bs)).toNat = leNat bs := by
    rw [UInt32.toNat_ofNat']
    omega
  rw [uint32Bytes, hnat, ← h, leBytes_leNat]

theorem readMwebFlaggedTransaction_standalone (hjs : js.Correct) {part : MwebPart}
    (h : At buf.bytes start (t.flagged part)) :
    readMwebFlaggedTransaction js buf start true = .ok ⟨t, (t.flagged part).length⟩ := by
  cases part with
  | null =>
    apply @readMwebFlaggedTransaction_null _ _ _ _ [] hjs
    rwa [List.append_nil]
  | body tag rest htag =>
    have hlen := h.length
    have hbody : At buf.bytes start (t.flaggedHead ++ tag :: (rest ++ uint32Bytes t.locktime)) := by
      simpa only [Transaction.flagged, MwebPart.bytes, List.append_assoc, List.cons_append] using h
    have hrest : buf.length - start = (t.flagged (.body tag rest htag)).length := by
      rw [Buffer.length]
      omega
    rw [readMwebFlaggedTransaction_body hjs htag hbody, hrest]

/-- Cut off before four bytes behind its tag, a standalone transaction is refused. -/
theorem readMwebFlaggedTransaction_standalone_short {part : MwebPart}
    (h : At buf'.bytes start (t.flagged part)) (hcut : buf.IsPrefix buf')
    (hin : start ≤ buf.length) (hshort : buf.length < start + t.flaggedHead.length + 5) :
    ∃ e, readMwebFlaggedTransaction js buf start true = .error e := by
  obtain ⟨tag, rest, hpart⟩ : ∃ tag rest, part.bytes ++ uint32Bytes t.locktime = tag :: rest := by
    cases part with
    | null => exact ⟨_, _, rfl⟩
    | body tag rest htag => exact ⟨_, _, rfl⟩
  have hhead : At buf'.bytes start ((t.flaggedHead ++ [tag]) ++ rest) := by
    rw [Transaction.flagged, List.append_assoc, hpart] at h
    simpa only [List.append_assoc, List.cons_append, List.nil_append] using h
  rcases hhead.cut hcut hin with ⟨after, hafter, -⟩ | ⟨more, hmore, hinside⟩
  · have hlen := hafter.length
    simp only [List.append_assoc, List.cons_append, List.nil_append] at hafter
    simp only [List.length_append, List.length_cons, List.length_nil] at hlen
    rw [Buffer.length] at hshort
    exact readMwebFlaggedTransaction_noLockTime hafter (by omega) true
  · have hlen := congrArg List.length hinside
    have hpos := List.length_pos_of_ne_nil hmore
    simp only [List.append_assoc, List.cons_append, List.nil_append] at hhead
    simp only [List.length_append, List.length_drop, List.length_cons, List.length_nil] at hlen
    apply readMwebFlaggedTransaction_cut hhead hcut
    rw [Buffer.length]
    omega

/-- Cut off further behind the tag of its MWEB body, it is read with a lock time that
    is not its own. -/
theorem readMwebFlaggedTransaction_standalone_long (hjs : js.Correct) {tag : UInt8}
    {htag : tag ≠ 0} (h : At buf'.bytes start (t.flagged (.body tag rest htag)))
    (hcut : buf.IsPrefix buf') (hlong : start + t.flaggedHead.length + 5 ≤ buf.length) :
    ∃ locktime, readMwebFlaggedTransaction js buf start true =
      .ok ⟨{ t with locktime := locktime }, buf.length - start⟩ := by
  have hhead : At buf'.bytes start ((t.flaggedHead ++ [tag]) ++ (rest ++ uint32Bytes t.locktime)) := by
    simpa only [Transaction.flagged, MwebPart.bytes, List.append_assoc, List.cons_append,
      List.nil_append] using h
  have hin : start ≤ buf.bytes.length := by
    rw [Buffer.length] at hlong
    omega
  rcases hhead.cut hcut hin with ⟨after, hafter, -⟩ | ⟨more, hmore, hinside⟩
  · have hlen := hafter.length
    simp only [List.append_assoc, List.cons_append, List.nil_append] at hafter
    simp only [List.length_append, List.length_cons, List.length_nil] at hlen
    rw [Buffer.length] at hlong
    have hlast : (after.drop (after.length - 4)).length = 4 := by
      rw [List.length_drop]
      omega
    rcases exists_uint32Bytes hlast with ⟨locktime, hlocktime⟩
    refine ⟨locktime, ?_⟩
    apply @readMwebFlaggedTransaction_body js buf start t (after.take (after.length - 4)) hjs _ htag
    rwa [hlocktime, List.take_append_drop]
  · have hlen := congrArg List.length hinside
    simp only [List.length_append, List.length_drop, List.length_cons, List.length_nil] at hlen
    rw [Buffer.length] at hlong
    omega

/-- A standalone transaction that was cut off is refused, unless the cut is behind the
    tag of an MWEB body and leaves four bytes there. -/
theorem readMwebFlaggedTransaction_standalone_cut (hjs : js.Correct) {part : MwebPart}
    (h : At buf'.bytes start (t.flagged part)) (hcut : buf.IsPrefix buf')
    (hproper : buf.length < buf'.length) (hin : start ≤ buf.length) :
    (∃ e, readMwebFlaggedTransaction js buf start true = .error e) ↔
      part = .null ∨ buf.length < start + t.flaggedHead.length + 5 := by
  refine ⟨fun hthrows => ?_, fun hcond => ?_⟩
  · cases part with
    | null => exact .inl rfl
    | body tag rest htag =>
      by_contra hnot
      simp only [not_or, not_lt] at hnot
      rcases readMwebFlaggedTransaction_standalone_long hjs h hcut hnot.2 with ⟨locktime, hread⟩
      rcases hthrows with ⟨e, he⟩
      rw [hread] at he
      cases he
  · rcases hcond with rfl | hshort
    · have hlen := h.length
      apply @readMwebFlaggedTransaction_null_cut js buf buf' start t [] _ hcut hin
      · rwa [← hlen]
      · rwa [List.append_nil]
    · exact readMwebFlaggedTransaction_standalone_short h hcut hin hshort

/-! ## Section 2: Hex -/

/-- What `transactionFromHex` takes for hex at all. -/
def IsTransactionHex (txHex : JsString) : Prop :=
  txHex.chars ≠ [] ∧ txHex.chars.length % 2 = 0 ∧ txHex.chars.all isHexDigit = true

theorem length_ofHex {cs : List Char} (h : cs.length % 2 = 0) : 2 * (ofHex cs).length = cs.length := by
  fun_induction ofHex cs with
  | case1 a b cs ih =>
    simp only [List.length_cons] at h ⊢
    have := ih (by omega)
    omega
  | case2 cs hshort =>
    cases cs with
    | nil => rfl
    | cons a cs =>
      cases cs with
      | nil => simp at h
      | cons b cs => exact absurd rfl (hshort a b cs)

/-- On hex, the readers decide. -/
theorem transactionFromHex_eq {txHex : JsString} (hhex : IsTransactionHex txHex) :
    transactionFromHex js .mweb txHex = wrapParse "Transaction parse failed: " (do
      let flagged ← hasMwebFlag (Buffer.ofHex txHex) 0
      if flagged then do
        let parsed ← readMwebFlaggedTransaction js (Buffer.ofHex txHex) 0 true
        if parsed.consumed ≠ (Buffer.ofHex txHex).length then
          throw (trailingError (((Buffer.ofHex txHex).length : ℤ) - parsed.consumed))
        else return parsed.tx
      else do
        let tx ← fromBitcoinJs (js.transactionFromBuffer (Buffer.ofHex txHex).bytes true)
        if js.byteLength tx ≠ (Buffer.ofHex txHex).length then
          throw (trailingError (((Buffer.ofHex txHex).length : ℤ) - js.byteLength tx))
        else return tx) := by
  rcases hhex with ⟨hsome, heven, hdigits⟩
  have hpos := List.length_pos_of_ne_nil hsome
  have hgood : ¬(txHex.chars.length = 0 ∨ txHex.chars.length % 2 ≠ 0 ∨
      ¬txHex.chars.all isHexDigit = true) := by
    rintro (hzero | hodd | hbad)
    · omega
    · exact hodd heven
    · exact hbad hdigits
  rw [transactionFromHex, if_neg hgood]
  rfl

theorem transactionFromHex_reads (hjs : js.Correct) {txHex : JsString} {part : MwebPart}
    (hhex : IsTransactionHex txHex) (hversion : t.version = 1 ∨ t.version = 2)
    (h : (Buffer.ofHex txHex).bytes = t.flagged part) :
    transactionFromHex js .mweb txHex = .ok t := by
  have hat : At (Buffer.ofHex txHex).bytes 0 (t.flagged part) := by
    rw [← h]
    exact at_zero _
  have hhead : At (Buffer.ofHex txHex).bytes 0
      (t.flaggedHead ++ (part.bytes ++ uint32Bytes t.locktime)) := by
    simpa only [Transaction.flagged, List.append_assoc] using hat
  have hlen : ¬(t.flagged part).length ≠ (Buffer.ofHex txHex).length := by
    rw [Buffer.length, h]
    simp
  rw [transactionFromHex_eq hhex, hasMwebFlag_flagged hversion hhead]
  simp only [bind, Except.bind, if_true, readMwebFlaggedTransaction_standalone hjs hat, if_neg hlen]
  rfl

theorem wrapParse_error {α : Type} (what : String) {r : Except Thrown α} :
    (∃ e, wrapParse what r = .error e) ↔ ∃ e, r = .error e := by
  cases r with
  | error e => exact ⟨fun _ => ⟨e, rfl⟩, fun _ => ⟨_, rfl⟩⟩
  | ok a => simp [wrapParse, Except.mapError]

/-- The same cuts are refused in hex. -/
theorem transactionFromHex_cut (hjs : js.Correct) {txHex : JsString} {part : MwebPart}
    (hhex : IsTransactionHex txHex) (hversion : t.version = 1 ∨ t.version = 2)
    (h : buf'.bytes = t.flagged part) (hcut : (Buffer.ofHex txHex).IsPrefix buf')
    (hproper : (Buffer.ofHex txHex).length < buf'.length) :
    (∃ e, transactionFromHex js .mweb txHex = .error e) ↔
      part = .null ∨ (Buffer.ofHex txHex).length < t.flaggedHead.length + 5 := by
  have hat : At buf'.bytes 0 (t.flagged part) := by
    rw [← h]
    exact at_zero _
  have hhead : At buf'.bytes 0 (t.flaggedHead ++ (part.bytes ++ uint32Bytes t.locktime)) := by
    simpa only [Transaction.flagged, List.append_assoc] using hat
  have hcutAt := readMwebFlaggedTransaction_standalone_cut hjs hat hcut hproper (Nat.zero_le _)
  rw [Nat.zero_add] at hcutAt
  rw [transactionFromHex_eq hhex, wrapParse_error, ← hcutAt]
  by_cases hfew : ((Buffer.ofHex txHex).length : ℤ) - (0 : ℕ) < 6
  · -- too short for the flag: bitcoinjs refuses it, and so would the reader
    have hlong := length_flaggedHead t
    have hstart : (Buffer.ofHex txHex).bytes <+: t.flaggedHead := by
      rw [Buffer.IsPrefix, h] at hcut
      have hwhole : t.flaggedHead <+: t.flagged part := by
        rw [Transaction.flagged, List.append_assoc]
        exact List.prefix_append _ _
      apply List.prefix_of_prefix_length_le hcut hwhole
      rw [Buffer.length] at hfew
      omega
    have hthrows : ∃ e, readMwebFlaggedTransaction js (Buffer.ofHex txHex) 0 true = .error e := by
      rw [hcutAt]
      right
      omega
    rcases @transactionFromBuffer_flaggedStart js t hjs _ hstart
      (by rw [Buffer.length] at hfew; omega) true with ⟨e, he⟩
    refine ⟨fun _ => hthrows, fun _ => ?_⟩
    rw [hasMwebFlag_short hfew]
    simp only [bind, Except.bind, Bool.false_eq_true, if_false, he]
    exact ⟨e, rfl⟩
  · rw [hasMwebFlag_cut hcut hfew, hasMwebFlag_flagged hversion hhead]
    simp only [bind, Except.bind, if_true]
    cases hread : readMwebFlaggedTransaction js (Buffer.ofHex txHex) 0 true with
    | error e => exact ⟨fun _ => ⟨e, rfl⟩, fun _ => ⟨e, rfl⟩⟩
    | ok read =>
      -- what is read reaches to the end of the buffer
      have hwhole : read.consumed = (Buffer.ofHex txHex).length := by
        have hlong : ¬(part = .null ∨ (Buffer.ofHex txHex).length < t.flaggedHead.length + 5) := by
          rw [← hcutAt, hread]
          simp
        cases part with
        | null => exact absurd (.inl rfl) hlong
        | body tag rest htag =>
          simp only [not_or, not_lt] at hlong
          rcases readMwebFlaggedTransaction_standalone_long hjs hat hcut
            (by rw [Nat.zero_add]; exact hlong.2) with ⟨locktime, hread'⟩
          rw [hread'] at hread
          cases hread
          rfl
      have hsame : ¬read.consumed ≠ (Buffer.ofHex txHex).length := by simp [hwhole]
      simp only [if_neg hsame]
      simp [pure, Except.pure]

theorem transactionFromHex_readsInside (format : WireFormat) (txHex : JsString) :
    ReadsInside (transactionFromHex js format txHex) := by
  apply ReadsInside.wrapParse
  by_cases hbad : txHex.chars.length = 0 ∨ txHex.chars.length % 2 ≠ 0 ∨
      ¬txHex.chars.all isHexDigit = true
  · rw [if_pos hbad]
    intro e he
    cases he
    rfl
  · have htrailing : ∀ {α : Type} n, ReadsInside (.error (trailingError n) : Except Thrown α) := by
      intro α n e he
      cases he
      rfl
    rw [if_neg hbad]
    have hflag : ReadsInside (if format = .mweb then hasMwebFlag (Buffer.ofHex txHex) 0
        else .ok false) := by
      split_ifs
      · exact hasMwebFlag_readsInside
      · exact .ok _
    apply ReadsInside.bind hflag
    intro flagged hflagged
    by_cases hyes : flagged = true
    · have hlen : 0 + 6 ≤ (Buffer.ofHex txHex).length := by
        rw [hyes] at hflagged
        split_ifs at hflagged
        · exact length_of_hasMwebFlag hflagged
        · cases hflagged
      rw [if_pos hyes]
      apply ReadsInside.bind (readMwebFlaggedTransaction_within hlen true).readsInside
      intro parsed hparsed
      split_ifs
      · exact htrailing _
      · exact .ok _
    · rw [if_neg hyes]
      apply ReadsInside.bind (readsInside_fromBitcoinJs _)
      intro tx htx
      split_ifs
      · exact htrailing _
      · exact .ok _

/-! ## Section 3: Blocks -/

/-- A block that was cut off is refused, unless what is left is its header or all of
    its transactions. -/
theorem blockFromBuffer_cut_iff (hjs : js.Correct) (b : MwebBlock js) (h : buf'.bytes = b.bytes)
    (hcut : buf.IsPrefix buf') :
    (∃ e, blockFromBuffer js .mweb buf = .error e) ↔
      buf.length ≠ 80 ∧ buf.length < b.core.length := by
  refine ⟨fun hthrows => ⟨?_, ?_⟩, fun hcond => ?_⟩
  · -- the header alone is a block without transactions
    intro hbare
    have hheader : buf.bytes <+: b.header.bytes := by
      rw [Buffer.IsPrefix, h] at hcut
      have hwhole : b.header.bytes <+: b.bytes := by
        rw [MwebBlock.bytes, MwebBlock.core, List.append_assoc]
        exact List.prefix_append _ _
      apply List.prefix_of_prefix_length_le hcut hwhole
      rw [BlockHeader.length_bytes, ← hbare]
      exact Nat.le_refl _
    have hsame : buf.bytes = b.header.bytes := by
      apply hheader.eq_of_length
      rw [BlockHeader.length_bytes, ← hbare]
      rfl
    have hat : At buf.bytes 0 (b.header.bytes ++ []) := by
      rw [List.append_nil, ← hsame]
      exact at_zero _
    rcases hthrows with ⟨e, he⟩
    simp only [blockFromBuffer, if_neg (show ¬buf.length < 80 by omega), readHeader_at hat, bind,
      Except.bind, if_pos hbare] at he
    cases he
  · by_contra hlong
    have hat : At buf'.bytes 0 (b.core ++ b.extension) := by
      rw [← MwebBlock.bytes, ← h]
      exact at_zero _
    -- the cut lies behind the core or inside it
    rcases hat.cut hcut (Nat.zero_le _) with ⟨after, hafter, hstarts⟩ | ⟨more, hmore, hinside⟩
    · have hbytes : buf.bytes = b.core ++ after := hafter.2
      have hext : ¬(after ≠ [] ∧ b.hogEx = none) := by
        rintro ⟨hafterNil, hnone⟩
        rw [b.bare hnone] at hstarts
        exact hafterNil (List.prefix_nil.mp hstarts)
      rcases hthrows with ⟨e, he⟩
      rw [blockFromBuffer_core hjs b hbytes, if_neg hext] at he
      cases he
    · have hlen := congrArg List.length hinside
      have hpos := List.length_pos_of_ne_nil hmore
      simp only [List.length_append, List.length_drop] at hlen
      rw [Buffer.length] at hlong
      omega
  · exact blockFromBuffer_cut hjs b h hcut hcond.2 hcond.1

/-- A block that is taken ends where its buffer does, or with a HogEx. -/
theorem blockFromBuffer_bodyEnd {block : Block} (h : blockFromBuffer js .mweb buf = .ok block)
    (hlong : buf.length ≠ 80) : ∃ body, readMwebTransactions js buf 80 = .ok body ∧
      block.transactions = some body.transactions ∧
      (body.hogExLast = false → body.offset = buf.length) := by
  simp only [blockFromBuffer] at h
  by_cases hsmall : buf.length < 80
  · rw [if_pos hsmall] at h
    cases h
  · rw [if_neg hsmall] at h
    rcases bind_eq_ok h with ⟨header, -, h⟩
    rw [if_neg hlong] at h
    rcases bind_eq_ok h with ⟨body, hbody, h⟩
    rcases bind_eq_ok h with ⟨u, hintact, h⟩
    cases h
    refine ⟨body, ?_, rfl, ?_⟩
    · cases hread : readMwebTransactions js buf 80 with
      | error e =>
        rw [hread] at hbody
        cases hbody
      | ok body' =>
        rw [hread] at hbody
        cases hbody
        rfl
    · intro hlast
      by_contra hbehind
      unfold assertBlockBodyIntact at hintact
      split_ifs at hintact with hnone hrest hroot
      exact hrest ⟨hbehind, hlast⟩

/-- The other coins take nothing behind the last transaction. -/
theorem blockFromBuffer_plainEnd {format : WireFormat} (hformat : format ≠ .mweb) {block : Block}
    (h : blockFromBuffer js format buf = .ok block) (hlong : buf.length ≠ 80) :
    js.blockByteLength block = buf.length := by
  have hplain : ∀ {r : Except Thrown Block}, (r >>= fun plainBlock =>
      if buf.length = 80 then pure plainBlock
      else do
        assertBlockBodyIntact js plainBlock.header (plainBlock.transactions.getD []) buf.length
          (js.blockByteLength plainBlock) false
        return plainBlock) = .ok block → js.blockByteLength block = buf.length := by
    intro r hr
    rcases bind_eq_ok hr with ⟨plainBlock, -, hr⟩
    rw [if_neg hlong] at hr
    rcases bind_eq_ok hr with ⟨u, hintact, hr⟩
    cases hr
    by_contra hbehind
    unfold assertBlockBodyIntact at hintact
    split_ifs at hintact with hnone hrest hroot
    exact hrest ⟨hbehind, rfl⟩
  cases format with
  | mweb => exact absurd rfl hformat
  | default => exact hplain h
  | auxpow => exact hplain h

/-! ## Section 4: Exact reading -/

/-- What the readers answer. -/
structure ExactReading (js : BitcoinJs) : Prop where
  /-- the flag is seen -/
  recognised : ∀ buf start (t : Transaction) part rest, t.version = 1 ∨ t.version = 2 →
    At buf.bytes start (t.flagged part ++ rest) → hasMwebFlag buf start = .ok true
  /-- a form with a null tag is read back, whatever follows it -/
  inBlock : ∀ buf start (t : Transaction) rest standalone,
    At buf.bytes start (t.flagged .null ++ rest) →
    readMwebFlaggedTransaction js buf start standalone = .ok ⟨t, (t.flagged .null).length⟩
  /-- a form with any MWEB part is read back where nothing follows it -/
  standalone : ∀ buf start (t : Transaction) part, At buf.bytes start (t.flagged part) →
    readMwebFlaggedTransaction js buf start true = .ok ⟨t, (t.flagged part).length⟩
  hex : ∀ txHex (t : Transaction) part, IsTransactionHex txHex → t.version = 1 ∨ t.version = 2 →
    (Buffer.ofHex txHex).bytes = t.flagged part → transactionFromHex js .mweb txHex = .ok t
  block : ∀ buf (b : MwebBlock js), buf.bytes = b.bytes → blockFromBuffer js .mweb buf =
    .ok ⟨b.header, some b.transactions, js.getWitnessCommit b.transactions⟩
  /-- bytes behind a block without a HogEx are refused -/
  trailing : ∀ buf (b : MwebBlock js) rest, b.hogEx = none → rest ≠ [] → buf.bytes = b.bytes ++ rest →
    ∃ e, blockFromBuffer js .mweb buf = .error e
  bodyEnd : ∀ buf block, blockFromBuffer js .mweb buf = .ok block → buf.length ≠ 80 →
    ∃ body, readMwebTransactions js buf 80 = .ok body ∧
      block.transactions = some body.transactions ∧
      (body.hogExLast = false → body.offset = buf.length)
  plainEnd : ∀ format buf block, format ≠ .mweb → blockFromBuffer js format buf = .ok block →
    buf.length ≠ 80 → js.blockByteLength block = buf.length
  /-- which cuts are refused -/
  inBlockCut : ∀ buf buf' start (t : Transaction) rest standalone,
    At buf'.bytes start (t.flagged .null ++ rest) → buf.IsPrefix buf' → start ≤ buf.length →
    buf.length < start + (t.flagged .null).length →
    ∃ e, readMwebFlaggedTransaction js buf start standalone = .error e
  standaloneCut : ∀ buf buf' start (t : Transaction) part, At buf'.bytes start (t.flagged part) →
    buf.IsPrefix buf' → buf.length < buf'.length → start ≤ buf.length →
    ((∃ e, readMwebFlaggedTransaction js buf start true = .error e) ↔
      part = .null ∨ buf.length < start + t.flaggedHead.length + 5)
  hexCut : ∀ txHex buf' (t : Transaction) part, IsTransactionHex txHex →
    t.version = 1 ∨ t.version = 2 → buf'.bytes = t.flagged part →
    (Buffer.ofHex txHex).IsPrefix buf' → (Buffer.ofHex txHex).length < buf'.length →
    ((∃ e, transactionFromHex js .mweb txHex = .error e) ↔
      part = .null ∨ (Buffer.ofHex txHex).length < t.flaggedHead.length + 5)
  blockCut : ∀ buf buf' (b : MwebBlock js), buf'.bytes = b.bytes → buf.IsPrefix buf' →
    ((∃ e, blockFromBuffer js .mweb buf = .error e) ↔
      buf.length ≠ 80 ∧ buf.length < b.core.length)
  /-- and on any buffer at all nothing is read past the end -/
  flaggedInside : ∀ buf start standalone, hasMwebFlag buf start = .ok true →
    ReadsInside (readMwebFlaggedTransaction js buf start standalone)
  hexInside : ∀ format txHex, ReadsInside (transactionFromHex js format txHex)
  blockInside : ∀ format buf, ReadsInside (blockFromBuffer js format buf)

/-- **Main theorem.** With bitcoinjs correct on the plain form, the Litecoin readers
    are exact. -/
theorem exactReading (hjs : js.Correct) : ExactReading js where
  recognised buf start t part rest hversion h := by
    apply hasMwebFlag_flagged hversion
    simpa only [Transaction.flagged, List.append_assoc] using h
  inBlock buf start t rest standalone h := readMwebFlaggedTransaction_null hjs h standalone
  standalone buf start t part h := readMwebFlaggedTransaction_standalone hjs h
  hex txHex t part hhex hversion h := transactionFromHex_reads hjs hhex hversion h
  block buf b h := by
    rw [MwebBlock.bytes] at h
    have hext : ¬(b.extension ≠ [] ∧ b.hogEx = none) := fun hboth => hboth.1 (b.bare hboth.2)
    rw [blockFromBuffer_core hjs b h, if_neg hext]
  trailing buf b rest hnone hrest h := by
    rw [MwebBlock.bytes, b.bare hnone, List.append_nil] at h
    rw [blockFromBuffer_core hjs b h, if_pos ⟨hrest, hnone⟩]
    exact ⟨_, rfl⟩
  bodyEnd buf block h hlong := blockFromBuffer_bodyEnd h hlong
  plainEnd format buf block hformat h hlong := blockFromBuffer_plainEnd hformat h hlong
  inBlockCut buf buf' start t rest standalone h hcut hin hshort :=
    readMwebFlaggedTransaction_null_cut h hcut hin hshort standalone
  standaloneCut buf buf' start t part h hcut hproper hin :=
    readMwebFlaggedTransaction_standalone_cut hjs h hcut hproper hin
  hexCut txHex buf' t part hhex hversion h hcut hproper :=
    transactionFromHex_cut hjs hhex hversion h hcut hproper
  blockCut buf buf' b h hcut := blockFromBuffer_cut_iff hjs b h hcut
  flaggedInside buf start standalone h :=
    (readMwebFlaggedTransaction_within (length_of_hasMwebFlag h) standalone).readsInside
  hexInside format txHex := transactionFromHex_readsInside format txHex
  blockInside format buf := blockFromBuffer_readsInside format buf

end

/-! ## Section 5: A block with a HogEx -/

namespace Sample

def coinbase : Transaction where
  version  := 2
  ins      := [⟨Vector.replicate 32 0, 0xFFFFFFFF, [0x51, 0x51], 0xFFFFFFFF,
    [List.replicate 32 0]⟩]
  outs     := [⟨625000000, [0x51]⟩]
  locktime := 0

def hogEx : Transaction where
  version  := 2
  ins      := [⟨Vector.replicate 32 0x11, 0, [], 0xFFFFFFFF, []⟩]
  outs     := [⟨1000, [0x51]⟩]
  locktime := 0

/-- The merkle root of the two. -/
def root : Vector UInt8 32 :=
  #v[194, 248, 19, 6, 142, 49, 45, 163, 72, 240, 151, 75, 178, 218, 94, 101, 221, 52, 187, 253,
    156, 122, 67, 144, 211, 223, 70, 206, 203, 141, 202, 53]

def js : BitcoinJs :=
  .ofPlain (fun _ => root) (fun _ => none) (fun _ => .error "unread") (fun _ => 0)

def block : MwebBlock js where
  header    := ⟨2, Vector.replicate 32 0, root, 1700000000, 0x1D00FFFF, 7⟩
  txs       := [coinbase]
  hogEx     := some hogEx
  extension := [0x01, 0x02, 0x03]
  hasInputs := by simp [coinbase]
  version   := by
    intro t ht
    cases ht
    exact .inr rfl
  nonempty  := by simp
  bare      := by simp
  root      := rfl

def buffer : Buffer where
  bytes := block.bytes
  safe  := by decide +kernel

theorem exactReading_block : blockFromBuffer js .mweb buffer =
    .ok ⟨block.header, some [coinbase, hogEx], none⟩ := by
  have hjs : js.Correct := correct_ofPlain ..
  exact (exactReading hjs).block buffer block rfl

/-- A standalone transaction without inputs, with an MWEB body of two bytes. -/
def flagged : Buffer where
  bytes := (⟨2, [], [], 0⟩ : Transaction).flagged (.body 0x01 [0xAA, 0xBB] (by decide))
  safe  := by decide

def cut : Buffer where
  bytes := flagged.bytes.dropLast
  safe  := by decide

/-- Without its last byte it is still taken, with another lock time, and the header of
    a block is taken for a block. -/
theorem cut_is_read : cut.bytes <+: flagged.bytes ∧ cut.length < flagged.length ∧
    readMwebFlaggedTransaction js cut 0 true = .ok ⟨⟨2, [], [], 0xBB⟩, cut.length⟩ ∧
    (∃ header : Buffer, header.bytes = buffer.bytes.take 80 ∧
      blockFromBuffer js .mweb header = .ok ⟨block.header, none, none⟩) := by
  exact ⟨by decide, by decide, rfl, ⟨block.header.bytes, by decide⟩, by decide +kernel, rfl⟩

end Sample

end XChainDecoder.Wire
