import XChainDecoder.Wire.Walk

/-! # Reading a flagged transaction

    `readMwebFlaggedTransaction` first walks to the MWEB tag (`walkHead`) and then
    finds the lock time and builds the transaction (`finishFlagged`). On a flagged
    form the first answers the same on every buffer that reaches the tag, so what a
    buffer that was cut off comes to depends only on where it ends: before the tag,
    or behind it. -/

namespace XChainDecoder.Wire

open Bytes

/-- What the readers rely on bitcoinjs and varuint-bitcoin for: a transaction with
    an input is read from its plain form, and from nothing shorter; a CompactSize
    likewise. -/
structure BitcoinJs.Correct (js : BitcoinJs) : Prop where
  reads : ∀ (t : Transaction) rest noStrict, t.ins ≠ [] →
    (t.plain ++ rest).length ≤ MAX_SAFE_INTEGER → (noStrict = true ∨ rest = []) →
    js.transactionFromBuffer (t.plain ++ rest) noStrict = .ok t
  rejects : ∀ (t : Transaction) bs more noStrict, t.ins ≠ [] → bs ++ more = t.plain → more ≠ [] →
    t.plain.length ≤ MAX_SAFE_INTEGER →
    ∃ message, js.transactionFromBuffer bs noStrict = .error message
  byteLength : ∀ (t : Transaction), t.ins ≠ [] → js.byteLength t = t.plain.length
  readsCount : ∀ n bs offset rest, n ≤ MAX_SAFE_INTEGER → At bs offset (compactSize n ++ rest) →
    js.varuintDecode bs offset = .ok (n, (compactSize n).length)
  rejectsCount : ∀ n bs offset enc more, n ≤ MAX_SAFE_INTEGER → At bs offset enc →
    enc ++ more = compactSize n → more ≠ [] →
    ∃ message, js.varuintDecode bs offset = .error message

variable {js : BitcoinJs} {buf buf' : Buffer} {start : ℕ} {t : Transaction} {rest : List UInt8}

/-! ## Section 1: The two halves -/

/-- The walk to the MWEB tag: whether there are witnesses, where inputs and outputs
    are, and where the tag is. -/
def walkHead (buf : Buffer) (start : ℕ) : Except Thrown (Bool × InsAndOuts × ℕ) := do
  let flag ← buf.byteAt (start + 5)
  let insOuts ← skipMwebInsAndOuts buf (start + 6)
  let witnessEnd ← (if flag &&& 1 == 1 then skipMwebWitness buf insOuts.endOffset insOuts.nIns
    else .ok insOuts.endOffset : Except Thrown ℕ)
  let _ ← skipMwebBytes buf witnessEnd 1 "MWEB tag"
  return (flag &&& 1 == 1, insOuts, witnessEnd)

/-- The transaction with the lock time at `lockTimeAt`. -/
def buildFlagged (js : BitcoinJs) (buf : Buffer) (start : ℕ)
    (head : Bool × InsAndOuts × ℕ) (lockTimeAt endOffset : ℕ) : Except Thrown MwebRead :=
  if head.2.1.nIns = 0 then do
    return ⟨← buildInputlessTransaction buf start head.2.1.outsStart lockTimeAt, endOffset - start⟩
  else do
    let version ← buf.subarray start (start + 4)
    let body ← buf.subarray (start + 6) head.2.2
    let lockTime ← buf.subarray lockTimeAt endOffset
    let plain := version ++ (if head.1 then [0x00, 0x01] else []) ++ body ++ lockTime
    return ⟨← fromBitcoinJs (js.transactionFromBuffer plain false), endOffset - start⟩

def finishFlagged (js : BitcoinJs) (buf : Buffer) (start : ℕ) (standalone : Bool)
    (head : Bool × InsAndOuts × ℕ) : Except Thrown MwebRead := do
  let lockTimeAt ← mwebLockTimeAt buf head.2.2 (head.2.2 + 1) standalone
  let endOffset ← skipMwebBytes buf lockTimeAt 4 "locktime"
  buildFlagged js buf start head lockTimeAt endOffset

theorem readMwebFlaggedTransaction_eq (standalone : Bool) :
    readMwebFlaggedTransaction js buf start standalone =
      walkHead buf start >>= finishFlagged js buf start standalone := by
  simp only [readMwebFlaggedTransaction, walkHead, bind, Except.bind, pure, Except.pure]
  cases buf.byteAt (start + 5) with
  | error e => rfl
  | ok flag =>
    simp only []
    cases skipMwebInsAndOuts buf (start + 6) with
    | error e => rfl
    | ok insOuts =>
      simp only []
      cases (if (flag &&& 1 == 1) = true then skipMwebWitness buf insOuts.endOffset insOuts.nIns
        else .ok insOuts.endOffset) with
      | error e => rfl
      | ok witnessEnd =>
        simp only []
        cases htag : skipMwebBytes buf witnessEnd 1 "MWEB tag" with
        | error e => rfl
        | ok tagEnd =>
          rw [(skipMwebBytes_eq_ok htag).1]
          rfl

theorem walkHead_extends (h : buf.IsPrefix buf') (start : ℕ) :
    Extends (walkHead buf start) (walkHead buf' start) := by
  apply Extends.bind (Buffer.byteAt_extends h _)
  intro flag hflag
  apply Extends.bind (skipMwebInsAndOuts_extends h _)
  intro insOuts hinsOuts
  have hwitness : Extends
      (if (flag &&& 1 == 1) = true then skipMwebWitness buf insOuts.endOffset insOuts.nIns
        else .ok insOuts.endOffset)
      (if (flag &&& 1 == 1) = true then skipMwebWitness buf' insOuts.endOffset insOuts.nIns
        else .ok insOuts.endOffset) := by
    split_ifs
    · exact skipMwebWitness_extends h _ _
    · exact .refl _
  apply Extends.bind hwitness
  intro witnessEnd hwitnessEnd
  apply Extends.bind (skipMwebBytes_extends h _ _ _)
  intro tagEnd htagEnd
  exact .refl _

/-- A walk that ends has the tag inside the buffer. -/
theorem walkHead_tag {head : Bool × InsAndOuts × ℕ} (h : walkHead buf start = .ok head) :
    head.2.2 < buf.length := by
  rcases bind_eq_ok h with ⟨flag, -, h⟩
  rcases bind_eq_ok h with ⟨insOuts, -, h⟩
  rcases bind_eq_ok h with ⟨witnessEnd, -, h⟩
  rcases bind_eq_ok h with ⟨tagEnd, htag, h⟩
  cases h
  exact (skipMwebBytes_eq_ok htag).2

/-! ## Section 2: The flagged form -/

/-- Where inputs and outputs of `t` are, written from `start` on. -/
def headOf (t : Transaction) (start : ℕ) : Bool × InsAndOuts × ℕ :=
  (t.hasWitnesses,
    ⟨start + 6 + t.vin.length + t.vout.length, start + 6 + t.vin.length, t.ins.length⟩,
    start + t.flaggedHead.length)

theorem mwebFlag_witness (t : Transaction) : (t.mwebFlag &&& 1 == 1) = t.hasWitnesses := by
  unfold Transaction.mwebFlag
  cases t.hasWitnesses <;> rfl

theorem length_flaggedHead (t : Transaction) :
    t.flaggedHead.length = 6 + t.vin.length + t.vout.length + t.witnesses.length := by
  simp only [Transaction.flaggedHead, Transaction.body, List.length_append,
    Transaction.length_versionBytes, List.length_cons, List.length_nil]
  omega

section
variable (h : At buf.bytes start (t.flaggedHead ++ rest))
include h

theorem at_flag : At buf.bytes (start + 5) (t.mwebFlag :: (t.body ++ rest)) := by
  simp only [Transaction.flaggedHead, List.append_assoc, List.cons_append, List.nil_append] at h
  have hmarker := h.advance
  rw [Transaction.length_versionBytes] at hmarker
  exact @At.advance _ _ [0x00] _ hmarker

theorem at_body : At buf.bytes (start + 6) (t.vin ++ (t.vout ++ (t.witnesses ++ rest))) := by
  have hbody : At buf.bytes (start + 6) (t.body ++ rest) :=
    @At.advance _ _ [t.mwebFlag] _ (at_flag h)
  simpa only [Transaction.body, List.append_assoc] using hbody

theorem at_witnesses : At buf.bytes (start + 6 + t.vin.length + t.vout.length)
    (t.witnesses ++ rest) :=
  (at_body h).advance.advance

end

theorem walkHead_at {tag : UInt8} (h : At buf.bytes start (t.flaggedHead ++ tag :: rest)) :
    walkHead buf start = .ok (headOf t start) := by
  have htag : At buf.bytes (start + t.flaggedHead.length) ([tag] ++ rest) := h.advance
  have hend : start + 6 + t.vin.length + t.vout.length + t.witnesses.length =
      start + t.flaggedHead.length := by
    rw [length_flaggedHead]
    omega
  have hwitness : (if t.hasWitnesses = true then
      skipMwebWitness buf (start + 6 + t.vin.length + t.vout.length) t.ins.length
      else .ok (start + 6 + t.vin.length + t.vout.length)) =
      .ok (start + t.flaggedHead.length) := by
    by_cases hw : t.hasWitnesses = true
    · rw [if_pos hw, skipMwebWitness_at t hw (at_witnesses h), hend]
    · rw [if_neg hw, ← hend, Transaction.witnesses, if_neg hw]
      rfl
  simp only [walkHead, bind, Except.bind, pure, Except.pure, Buffer.byteAt_at (at_flag h),
    skipMwebInsAndOuts_at t (at_body h), mwebFlag_witness, hwitness]
  rw [@skipMwebBytes_at _ _ _ [tag] 1 "MWEB tag" htag rfl]
  rfl

/-- A buffer that ends before the tag is refused. -/
theorem readMwebFlaggedTransaction_cut {tag : UInt8}
    (h : At buf'.bytes start (t.flaggedHead ++ tag :: rest)) (hcut : buf.IsPrefix buf')
    (hshort : buf.length ≤ start + t.flaggedHead.length) (standalone : Bool) :
    ∃ e, readMwebFlaggedTransaction js buf start standalone = .error e := by
  rw [readMwebFlaggedTransaction_eq]
  cases hwalk : walkHead buf start with
  | error e => exact ⟨e, rfl⟩
  | ok head =>
    have hwhole := walkHead_extends hcut start head hwalk
    rw [walkHead_at h] at hwhole
    simp only [Except.ok.injEq] at hwhole
    have htag := walkHead_tag hwalk
    rw [← hwhole] at htag
    simp only [headOf] at htag
    omega

/-! ## Section 3: The lock time and the transaction -/

/-- The transaction is rebuilt with whatever lock time stands at `lockTimeAt`. -/
theorem buildFlagged_at (hjs : js.Correct) {locktime : UInt32} {lockTimeAt : ℕ}
    {after : List UInt8} (h : At buf.bytes start (t.flaggedHead ++ rest))
    (hlock : At buf.bytes lockTimeAt (uint32Bytes locktime ++ after))
    (hbehind : start + t.flaggedHead.length ≤ lockTimeAt) :
    buildFlagged js buf start (headOf t start) lockTimeAt (lockTimeAt + 4) =
      .ok ⟨{ t with locktime := locktime }, lockTimeAt + 4 - start⟩ := by
  have hversion : At buf.bytes start (t.versionBytes ++ ([0x00, t.mwebFlag] ++ t.body ++ rest)) := by
    simpa only [Transaction.flaggedHead, List.append_assoc] using h
  unfold buildFlagged
  by_cases hins : t.ins = []
  · -- built field by field
    have hcount : (headOf t start).2.1.nIns = 0 := by simp [headOf, hins]
    have houts := (at_body h).advance
    rcases countedFrom_at "output count" (fun o _ => TxOut.length_bytes_pos o) skipMwebOut_at houts
      with ⟨houtsCount, -⟩
    have houtsBytes : At buf.bytes (start + 6 + t.vin.length) (compactSize t.outs.length ++
        (t.outs.flatMap TxOut.bytes ++ (t.witnesses ++ rest))) := by
      simpa only [Transaction.vout, counted, List.append_assoc] using houts
    have hread := readMwebOuts_at t.outs houtsBytes.advance
    have hint : buf.readInt32LE start = .ok t.version := by
      rw [Buffer.readInt32LE, Buffer.readUInt32LE_at hversion]
      show Except.ok t.version.toUInt32.toInt32 = _
      rw [Int32.toInt32_toUInt32]
    rw [if_pos hcount]
    simp only [headOf, buildInputlessTransaction, bind, Except.bind, pure, Except.pure, hint,
      houtsCount, hread, Buffer.readUInt32LE_at hlock]
    rw [← hins]
  · have hcount : (headOf t start).2.1.nIns ≠ 0 := by simp [headOf, hins]
    have hbody : At buf.bytes (start + 6) (t.body ++ rest) := by
      simpa only [Transaction.body, List.append_assoc] using at_body h
    have hstop : (headOf t start).2.2 = start + 6 + t.body.length := by
      simp only [headOf, length_flaggedHead, Transaction.body, List.length_append]
      omega
    have hbodyRead : buf.subarray (start + 6) (headOf t start).2.2 = .ok t.body := by
      rw [hstop]
      exact Buffer.subarray_at hbody
    have hversionRead : buf.subarray start (start + 4) = .ok t.versionBytes := by
      have := Buffer.subarray_at hversion
      rwa [Transaction.length_versionBytes] at this
    have hlockRead : buf.subarray lockTimeAt (lockTimeAt + 4) = .ok (uint32Bytes locktime) := by
      have := Buffer.subarray_at hlock
      rwa [length_uint32Bytes] at this
    -- what is handed to bitcoinjs is the plain form
    have hplain : t.versionBytes ++ (if (headOf t start).1 = true then [0x00, 0x01] else []) ++
        t.body ++ uint32Bytes locktime =
        ({ t with locktime := locktime } : Transaction).plain ++ [] := by
      rw [List.append_nil]
      rfl
    have hsafe : (({ t with locktime := locktime } : Transaction).plain ++ []).length ≤
        MAX_SAFE_INTEGER := by
      have hlen := hlock.length
      have hbuf := buf.safe
      have hhead := length_flaggedHead t
      rw [List.append_nil]
      simp only [Transaction.plain, List.length_append, length_uint32Bytes] at hlen ⊢
      have hmarker : (if ({ t with locktime := locktime } : Transaction).hasWitnesses = true then
          ([0x00, 0x01] : List UInt8) else []).length ≤ 2 := by
        split_ifs <;> simp
      simp only [Transaction.flaggedHead, List.length_append] at hbehind
      simp only [Transaction.length_versionBytes, List.length_cons, List.length_nil] at hbehind ⊢
      have hsame : ({ t with locktime := locktime } : Transaction).body = t.body := rfl
      rw [hsame]
      omega
    rw [if_neg hcount]
    simp only [bind, Except.bind, pure, Except.pure, hversionRead, hbodyRead, hlockRead, hplain]
    rw [hjs.reads { t with locktime := locktime } [] false hins hsafe (.inr rfl)]
    rfl

theorem mwebLockTimeAt_null {witnessEnd tagEnd : ℕ} (h : buf.byteAt witnessEnd = .ok 0)
    (standalone : Bool) : mwebLockTimeAt buf witnessEnd tagEnd standalone = .ok tagEnd := by
  simp only [mwebLockTimeAt, bind, Except.bind, h]
  rfl

theorem mwebLockTimeAt_body {witnessEnd tagEnd : ℕ} {tag : UInt8}
    (h : buf.byteAt witnessEnd = .ok tag) (htag : tag ≠ 0) :
    mwebLockTimeAt buf witnessEnd tagEnd true =
      if (buf.length : ℤ) - 4 < tagEnd then .error (mwebShortError "locktime")
      else .ok (buf.length - 4) := by
  simp only [mwebLockTimeAt, bind, Except.bind, h, if_pos htag]
  rfl

theorem mwebLockTimeAt_inBlock {witnessEnd tagEnd : ℕ} {tag : UInt8}
    (h : buf.byteAt witnessEnd = .ok tag) (htag : tag ≠ 0) :
    mwebLockTimeAt buf witnessEnd tagEnd false =
      .error (.error "MWEB tx parse: a non-null MWEB part inside a block has no recorded length") := by
  simp only [mwebLockTimeAt, bind, Except.bind, h, if_pos htag]
  rfl

/-- Behind the null tag stands the lock time. -/
theorem readMwebFlaggedTransaction_null (hjs : js.Correct)
    (h : At buf.bytes start (t.flagged .null ++ rest)) (standalone : Bool) :
    readMwebFlaggedTransaction js buf start standalone =
      .ok ⟨t, (t.flagged .null).length⟩ := by
  have hhead : At buf.bytes start (t.flaggedHead ++ 0x00 :: (uint32Bytes t.locktime ++ rest)) := by
    simpa only [Transaction.flagged, MwebPart.bytes, List.append_assoc, List.cons_append,
      List.nil_append] using h
  have htag : At buf.bytes (start + t.flaggedHead.length)
      (0x00 :: (uint32Bytes t.locktime ++ rest)) := hhead.advance
  have hlock : At buf.bytes (start + t.flaggedHead.length + 1)
      (uint32Bytes t.locktime ++ rest) := @At.advance _ _ [0x00] _ htag
  have hlength : start + t.flaggedHead.length + 1 + 4 - start = (t.flagged .null).length := by
    simp only [Transaction.flagged, MwebPart.bytes, List.length_append, List.length_cons,
      List.length_nil, length_uint32Bytes]
    omega
  rw [readMwebFlaggedTransaction_eq, walkHead_at hhead]
  show finishFlagged js buf start standalone (headOf t start) = _
  simp only [finishFlagged, headOf, mwebLockTimeAt_null (Buffer.byteAt_at htag), bind, Except.bind]
  rw [skipMwebBytes_at _ hlock (length_uint32Bytes _)]
  have hbuild := buildFlagged_at hjs hhead hlock (by omega)
  simp only [headOf] at hbuild
  simp only [hbuild, hlength]

/-- Behind any other tag the lock time is taken from the last four bytes, whatever
    stands between. -/
theorem readMwebFlaggedTransaction_body (hjs : js.Correct) {tag : UInt8} (htag : tag ≠ 0)
    {locktime : UInt32}
    (h : At buf.bytes start (t.flaggedHead ++ tag :: (rest ++ uint32Bytes locktime))) :
    readMwebFlaggedTransaction js buf start true =
      .ok ⟨{ t with locktime := locktime }, buf.length - start⟩ := by
  have hlen := h.length
  simp only [List.length_append, List.length_cons, length_uint32Bytes] at hlen
  have htagAt := h.advance
  have hrest : At buf.bytes (start + t.flaggedHead.length + 1) (rest ++ uint32Bytes locktime) :=
    @At.advance _ _ [tag] _ htagAt
  have hlock : At buf.bytes (buf.length - 4) (uint32Bytes locktime ++ []) := by
    have hafter := hrest.advance
    have hpos : start + t.flaggedHead.length + 1 + rest.length = buf.length - 4 := by
      rw [Buffer.length]
      omega
    rw [hpos] at hafter
    simpa using hafter
  have hlockTimeAt : mwebLockTimeAt buf (start + t.flaggedHead.length)
      (start + t.flaggedHead.length + 1) true = .ok (buf.length - 4) := by
    rw [mwebLockTimeAt_body (Buffer.byteAt_at htagAt) htag, if_neg]
    rw [Buffer.length]
    omega
  rw [readMwebFlaggedTransaction_eq, walkHead_at h]
  show finishFlagged js buf start true (headOf t start) = _
  simp only [finishFlagged, headOf, hlockTimeAt, bind, Except.bind]
  rw [skipMwebBytes_at _ hlock (length_uint32Bytes _)]
  have hbuild := buildFlagged_at hjs h hlock (by rw [Buffer.length]; omega)
  have hend : buf.length - 4 + 4 = buf.length := by
    rw [Buffer.length]
    omega
  simp only [headOf, hend] at hbuild
  simp only [hend, hbuild]

/-- With fewer than four bytes behind the tag nothing is read. -/
theorem readMwebFlaggedTransaction_noLockTime {tag : UInt8}
    (h : At buf.bytes start (t.flaggedHead ++ tag :: rest)) (hshort : rest.length < 4)
    (standalone : Bool) : ∃ e, readMwebFlaggedTransaction js buf start standalone = .error e := by
  have hlen := h.length
  simp only [List.length_append, List.length_cons] at hlen
  have hbyte := Buffer.byteAt_at h.advance
  rw [readMwebFlaggedTransaction_eq, walkHead_at h]
  show ∃ e, finishFlagged js buf start standalone (headOf t start) = .error e
  simp only [finishFlagged, headOf, bind, Except.bind]
  by_cases htag : tag = 0
  · have hskip : skipMwebBytes buf (start + t.flaggedHead.length + 1) 4 "locktime" =
        .error (mwebShortError "locktime") := by
      rw [skipMwebBytes, if_pos (by rw [Buffer.length]; omega)]
    rw [htag] at hbyte
    rw [mwebLockTimeAt_null hbyte]
    exact ⟨mwebShortError "locktime", by simp only [hskip]⟩
  · cases standalone with
    | false =>
      rw [mwebLockTimeAt_inBlock hbyte htag]
      exact ⟨_, rfl⟩
    | true =>
      rw [mwebLockTimeAt_body hbyte htag, if_pos (by rw [Buffer.length]; omega)]
      exact ⟨_, rfl⟩

/-- Cut off anywhere before its end, a form with a null tag is refused. -/
theorem readMwebFlaggedTransaction_null_cut
    (h : At buf'.bytes start (t.flagged .null ++ rest)) (hcut : buf.IsPrefix buf')
    (hin : start ≤ buf.length) (hshort : buf.length < start + (t.flagged .null).length)
    (standalone : Bool) : ∃ e, readMwebFlaggedTransaction js buf start standalone = .error e := by
  have hhead : At buf'.bytes start (t.flaggedHead ++ 0x00 :: (uint32Bytes t.locktime ++ rest)) := by
    simpa only [Transaction.flagged, MwebPart.bytes, List.append_assoc, List.cons_append,
      List.nil_append] using h
  by_cases htag : buf.length ≤ start + t.flaggedHead.length
  · exact readMwebFlaggedTransaction_cut hhead hcut htag standalone
  · have htagged : At buf'.bytes start ((t.flaggedHead ++ [0x00]) ++
        (uint32Bytes t.locktime ++ rest)) := by
      simpa using hhead
    rcases htagged.cut hcut hin with ⟨after, hafter, -⟩ | ⟨more, hmore, hinside⟩
    · have hlen := hafter.length
      simp only [Transaction.flagged, MwebPart.bytes, List.length_append, List.length_cons,
        List.length_nil, length_uint32Bytes] at hshort hlen
      apply @readMwebFlaggedTransaction_noLockTime js buf start t after 0x00
      · simpa using hafter
      · rw [Buffer.length] at hshort
        omega
    · have hlen := congrArg List.length hinside
      have hpos := List.length_pos_of_ne_nil hmore
      simp only [List.length_append, List.length_drop, List.length_cons, List.length_nil] at hlen
      rw [Buffer.length] at htag
      omega

/-! ## Section 4: On any buffer -/

/-- Outputs that were stepped over once can be read. -/
theorem readMwebOuts_of_skip {n offset stop : ℕ}
    (h : repeatFrom (skipMwebOut buf) n offset = .ok stop) :
    ∃ outs, readMwebOuts buf n offset = .ok outs := by
  induction n generalizing offset with
  | zero => exact ⟨[], rfl⟩
  | succ n ih =>
    rcases bind_eq_ok h with ⟨offset', hout, h⟩
    rcases bind_eq_ok hout with ⟨scriptAt, hvalue, hout⟩
    rcases bind_eq_ok hout with ⟨script, hscript, hskip⟩
    rcases skipMwebBytes_eq_ok hvalue with ⟨rfl, hle⟩
    rcases skipMwebBytes_eq_ok hskip with ⟨rfl, hle'⟩
    rcases ih h with ⟨outs, houts⟩
    have hbytes : buf.subarray script.endOffset (script.endOffset + script.value) =
        .ok ((buf.bytes.drop script.endOffset).take script.value) := by
      rw [Buffer.subarray, if_pos ⟨by omega, hle'⟩, Nat.add_sub_cancel_left]
    simp only [readMwebOuts, Buffer.readBigUInt64LE, Buffer.readUIntLE_of_le hle, Except.map,
      bind, Except.bind, pure, Except.pure, hscript, hbytes, houts]
    exact ⟨_, rfl⟩

/-- A walk that ends passed the outputs on its way to the tag. -/
theorem walkHead_spec {head : Bool × InsAndOuts × ℕ} (h : walkHead buf start = .ok head) :
    start + 6 ≤ head.2.2 ∧ ∃ outs stop,
      readMwebCompactSize buf head.2.1.outsStart "output count" = .ok outs ∧
      repeatFrom (skipMwebOut buf) outs.value outs.endOffset = .ok stop := by
  rcases bind_eq_ok h with ⟨flag, -, h⟩
  rcases bind_eq_ok h with ⟨insOuts, hinsOuts, h⟩
  rcases bind_eq_ok h with ⟨witnessEnd, hwitnessEnd, h⟩
  rcases bind_eq_ok h with ⟨tagEnd, -, h⟩
  cases h
  have hin := @skipMwebInsAndOuts_within buf (start + 6)
  rw [hinsOuts] at hin
  have hwitness : insOuts.endOffset ≤ witnessEnd := by
    split_ifs at hwitnessEnd
    · have hw := @skipMwebWitness_within buf insOuts.endOffset insOuts.nIns hin.2
      rw [hwitnessEnd] at hw
      exact hw.1
    · simp only [Except.ok.injEq] at hwitnessEnd
      omega
  refine ⟨hin.1.trans hwitness, ?_⟩
  rcases bind_eq_ok hinsOuts with ⟨ins, -, hinsOuts⟩
  rcases bind_eq_ok hinsOuts with ⟨outsStart, -, hinsOuts⟩
  rcases bind_eq_ok hinsOuts with ⟨outs, houts, hinsOuts⟩
  rcases bind_eq_ok hinsOuts with ⟨stop, hstop, hinsOuts⟩
  cases hinsOuts
  exact ⟨outs, stop, houts, hstop⟩

/-- The walk itself reads nothing past the end. -/
theorem walkHead_within (h : start + 6 ≤ buf.length) :
    Within buf.length start (fun head => head.2.2) (walkHead buf start) := by
  rcases Buffer.byteAt_of_lt (show start + 5 < buf.length by omega) with ⟨flag, hflag⟩
  rw [walkHead, hflag]
  have hins := (@skipMwebInsAndOuts_within buf (start + 6)).mono (show start ≤ start + 6 by omega)
  apply Within.bind hins
  intro insOuts hinsOuts hle hin
  have hwitness : Within buf.length insOuts.endOffset id
      (if (flag &&& 1 == 1) = true then skipMwebWitness buf insOuts.endOffset insOuts.nIns
        else .ok insOuts.endOffset) := by
    split_ifs
    · exact skipMwebWitness_within hin
    · exact ⟨Nat.le_refl _, hin⟩
  apply Within.bind hwitness
  intro witnessEnd hwitnessEnd hle' hin'
  cases htag : skipMwebBytes buf witnessEnd 1 "MWEB tag" with
  | error e =>
    have htagIn := @skipMwebBytes_within buf witnessEnd 1 "MWEB tag"
    rw [htag] at htagIn
    exact htagIn
  | ok tagEnd => exact ⟨Nat.le_refl _, hin'⟩

/-- With the lock time inside the buffer, so is all that is read to build the
    transaction. -/
theorem buildFlagged_within {head : Bool × InsAndOuts × ℕ} (h : walkHead buf start = .ok head)
    {lockTimeAt : ℕ} (hlock : lockTimeAt + 4 ≤ buf.length) (hstart : start ≤ lockTimeAt) :
    Within buf.length lockTimeAt (fun read => start + read.consumed)
      (buildFlagged js buf start head lockTimeAt (lockTimeAt + 4)) := by
  rcases walkHead_spec h with ⟨hafter, outs, stop, houts, hstop⟩
  have htag := walkHead_tag h
  have hend : lockTimeAt ≤ start + (lockTimeAt + 4 - start) ∧
      start + (lockTimeAt + 4 - start) ≤ buf.length := by omega
  have hword : ∀ offset, offset + 4 ≤ buf.length →
      ∃ n, buf.readUInt32LE offset = .ok n := by
    intro offset hle
    exact ⟨_, by rw [Buffer.readUInt32LE, Buffer.readUIntLE_of_le hle]; rfl⟩
  have hslice : ∀ a b, a ≤ b → b ≤ buf.length → ∃ bs, buf.subarray a b = .ok bs := by
    intro a b hab hb
    exact ⟨_, if_pos ⟨hab, hb⟩⟩
  unfold buildFlagged
  by_cases hcount : head.2.1.nIns = 0
  · rw [if_pos hcount]
    rcases hword start (by omega) with ⟨version, hversion⟩
    rcases hword lockTimeAt hlock with ⟨locktime, hlocktime⟩
    rcases readMwebOuts_of_skip hstop with ⟨list, hlist⟩
    simp only [buildInputlessTransaction, Buffer.readInt32LE, hversion, hlocktime, houts, hlist,
      bind, Except.bind, pure, Except.pure, Except.map]
    exact hend
  · rw [if_neg hcount]
    rcases hslice start (start + 4) (by omega) (by omega) with ⟨version, hversion⟩
    rcases hslice (start + 6) head.2.2 hafter (by omega) with ⟨body, hbody⟩
    rcases hslice lockTimeAt (lockTimeAt + 4) (by omega) hlock with ⟨lockTime, hlockTime⟩
    simp only [hversion, hbody, hlockTime, bind, Except.bind, pure, Except.pure]
    generalize js.transactionFromBuffer _ false = r
    cases r with
    | error message => rfl
    | ok tx => exact hend

/-- Whatever the buffer holds, reading a flagged transaction in it reads nothing past
    its end. -/
theorem readMwebFlaggedTransaction_within (h : start + 6 ≤ buf.length) (standalone : Bool) :
    Within buf.length start (fun read => start + read.consumed)
      (readMwebFlaggedTransaction js buf start standalone) := by
  rw [readMwebFlaggedTransaction_eq]
  apply Within.bind (walkHead_within h)
  intro head hhead hle hin
  have htag := walkHead_tag hhead
  have hafter := (walkHead_spec hhead).1
  rcases Buffer.byteAt_of_lt htag with ⟨tag, hbyte⟩
  -- the locktime is looked for behind the tag, in a block at once and alone at the end
  have hlockAt : Within buf.length head.2.2 id
      (mwebLockTimeAt buf head.2.2 (head.2.2 + 1) standalone) := by
    by_cases hnull : tag = 0
    · rw [hnull] at hbyte
      rw [mwebLockTimeAt_null hbyte]
      show head.2.2 ≤ head.2.2 + 1 ∧ head.2.2 + 1 ≤ buf.length
      omega
    · cases standalone with
      | false =>
        rw [mwebLockTimeAt_inBlock hbyte hnull]
        rfl
      | true =>
        rw [mwebLockTimeAt_body hbyte hnull]
        split_ifs with hshort
        · rfl
        · show head.2.2 ≤ buf.length - 4 ∧ buf.length - 4 ≤ buf.length
          omega
  apply Within.bind hlockAt
  intro lockTimeAt hlockTimeAt hle' hin'
  cases hskip : skipMwebBytes buf lockTimeAt 4 "locktime" with
  | error e =>
    have hskipIn := @skipMwebBytes_within buf lockTimeAt 4 "locktime"
    rw [hskip] at hskipIn
    exact hskipIn
  | ok endOffset =>
    rcases skipMwebBytes_eq_ok hskip with ⟨rfl, hlock⟩
    have hstart : start ≤ lockTimeAt := hle.trans hle'
    exact buildFlagged_within hhead hlock hstart

end XChainDecoder.Wire
