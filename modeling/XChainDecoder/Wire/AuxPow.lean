import XChainDecoder.Wire.Walk

/-! # The AuxPoW section

    A merge-mined block carries, between its header and its transactions, the proof of
    work of a parent chain: a coinbase transaction, the hash of the parent block, two
    merkle branches and the parent's header. Its length stands nowhere, so `skipAuxPow`
    walks it.

    Main result: `skipAuxPow_at`. -/

namespace XChainDecoder.Wire

open Bytes

variable {α : Type} {buf : Buffer} {offset : ℕ} {rest : List UInt8}

/-! ## Section 1: The walk -/

/-- A count and the bytes it takes. -/
structure Varint where
  value : ℕ
  bytes : ℕ
deriving DecidableEq, Repr

/-- `readVarint`. Behind the end `buf[offset]` is undefined, which is none of the markers. -/
def readVarint (buf : Buffer) (offset : ℕ) : Except Thrown Varint :=
  let first := buf.bytes[offset]?
  if first.any (· < 0xFD) then return ⟨(first.getD 0).toNat, 1⟩
  else if first = some 0xFD then do return ⟨← buf.readUInt16LE (offset + 1), 3⟩
  else if first = some 0xFE then do return ⟨(← buf.readUInt32LE (offset + 1)).toNat, 5⟩
  else do
    let lo ← buf.readUInt32LE (offset + 1)
    let hi ← buf.readUInt32LE (offset + 5)
    return ⟨hi.toNat * 0x100000000 + lo.toNat, 9⟩

/-- `if (offset + count > buf.length) throw`, and on behind them. -/
def skipAuxBytes (buf : Buffer) (offset count : ℕ) (what : String) : Except Thrown ℕ :=
  if buf.length < offset + count then
    .error (.error ("AuxPoW parse: buffer too short for " ++ what))
  else .ok (offset + count)

/-- A script or a witness item, whatever its length says. -/
def skipAuxVarBytes (buf : Buffer) (offset : ℕ) : Except Thrown ℕ := do
  let vi ← readVarint buf offset
  return offset + (vi.bytes + vi.value)

/-- One input of the coinbase. -/
def skipCoinbaseIn (buf : Buffer) (offset : ℕ) : Except Thrown ℕ := do
  let offset ← skipAuxBytes buf offset 36 "coinbase input prevout"
  let offset ← skipAuxVarBytes buf offset
  skipAuxBytes buf offset 4 "coinbase input sequence"

/-- One output. -/
def skipCoinbaseOut (buf : Buffer) (offset : ℕ) : Except Thrown ℕ := do
  let offset ← skipAuxBytes buf offset 8 "coinbase output value"
  skipAuxVarBytes buf offset

/-- The witness stack of one input. -/
def skipCoinbaseStack (buf : Buffer) (offset : ℕ) : Except Thrown ℕ := do
  let stackVI ← readVarint buf offset
  repeatFrom (skipAuxVarBytes buf) stackVI.value (offset + stackVI.bytes)

def skipCoinbaseTransaction (buf : Buffer) (start : ℕ) : Except Thrown ℕ := do
  let offset ← skipAuxBytes buf start 4 "coinbase version"
  let hasSegwit := buf.bytes[offset]? == some 0x00
  let offset := if hasSegwit then offset + 2 else offset
  let insVI ← readVarint buf offset
  let offset ← repeatFrom (skipCoinbaseIn buf) insVI.value (offset + insVI.bytes)
  let outsVI ← readVarint buf offset
  let offset ← repeatFrom (skipCoinbaseOut buf) outsVI.value (offset + outsVI.bytes)
  let offset ← (if hasSegwit then repeatFrom (skipCoinbaseStack buf) insVI.value offset
    else .ok offset : Except Thrown ℕ)
  skipAuxBytes buf offset 4 "coinbase locktime"

/-- A merkle branch and its index. -/
def skipBranch (buf : Buffer) (offset : ℕ) (what : String) : Except Thrown ℕ := do
  let vi ← readVarint buf offset
  skipAuxBytes buf (offset + vi.bytes) (vi.value * 32 + 4) what

def skipAuxPow (buf : Buffer) (start : ℕ) : Except Thrown ℕ := do
  let offset ← skipCoinbaseTransaction buf start
  let offset ← skipAuxBytes buf offset 32 "parent block hash"
  let offset ← skipBranch buf offset "coinbase branch"
  let offset ← skipBranch buf offset "chain branch"
  skipAuxBytes buf offset 80 "parent block header"

/-! ## Section 2: The section as it is written -/

def branchBytes (branch : List (Vector UInt8 32)) (index : UInt32) : List UInt8 :=
  counted Vector.toList branch ++ uint32Bytes index

structure AuxPow where
  coinbase       : Transaction
  parentHash     : Vector UInt8 32
  coinbaseBranch : List (Vector UInt8 32)
  coinbaseIndex  : UInt32
  chainBranch    : List (Vector UInt8 32)
  chainIndex     : UInt32
  parentHeader   : BlockHeader
  has_input      : coinbase.ins ≠ []

def AuxPow.bytes (a : AuxPow) : List UInt8 :=
  a.coinbase.plain ++ (a.parentHash.toList ++ (branchBytes a.coinbaseBranch a.coinbaseIndex ++
    (branchBytes a.chainBranch a.chainIndex ++ a.parentHeader.bytes)))

/-! ## Section 3: Stepping over what was written -/

theorem skipAuxBytes_at {enc : List UInt8} {count : ℕ} (what : String)
    (h : At buf.bytes offset (enc ++ rest)) (hcount : enc.length = count) :
    skipAuxBytes buf offset count what = .ok (offset + count) := by
  have hlen := h.length
  rw [List.length_append] at hlen
  rw [skipAuxBytes, if_neg (by rw [Buffer.length]; omega)]

/-- Eight bytes, read as two halves. -/
theorem readHalves_at {n : ℕ} (hn : n < 2 ^ 64)
    (h : At buf.bytes offset (leBytes 8 n ++ rest)) :
    ∃ lo hi : UInt32, buf.readUInt32LE offset = .ok lo ∧ buf.readUInt32LE (offset + 4) = .ok hi ∧
      hi.toNat * 0x100000000 + lo.toNat = n := by
  have hsplit : leBytes 8 n = uint32Bytes (UInt32.ofNat n) ++
      uint32Bytes (UInt32.ofNat (n / 2 ^ 32)) := by
    have hlo : (UInt32.ofNat n).toNat = n % 2 ^ 32 := UInt32.toNat_ofNat'
    have hhi : (UInt32.ofNat (n / 2 ^ 32)).toNat = n / 2 ^ 32 := by
      rw [UInt32.toNat_ofNat']
      omega
    unfold uint32Bytes
    rw [hlo, hhi]
    simp only [leBytes, List.cons_append, List.nil_append, List.cons.injEq, and_true]
    refine ⟨?_, ?_, ?_, ?_, ?_, ?_, ?_, ?_⟩ <;>
    · apply UInt8.toNat_inj.mp
      simp only [UInt8.toNat_ofNat']
      omega
  rw [hsplit, List.append_assoc] at h
  have hnext := h.advance
  rw [length_uint32Bytes] at hnext
  refine ⟨_, _, Buffer.readUInt32LE_at h, Buffer.readUInt32LE_at hnext, ?_⟩
  simp only [UInt32.toNat_ofNat']
  omega

theorem readVarint_at {n : ℕ} (h : At buf.bytes offset (compactSize n ++ rest)) (hn : n < 2 ^ 64) :
    readVarint buf offset = .ok ⟨n, (compactSize n).length⟩ := by
  unfold compactSize at h ⊢
  split_ifs at h ⊢ with h₁ h₂ h₃
  · -- the byte is the value
    have hbyte : (UInt8.ofNat n).toNat = n := by
      rw [UInt8.toNat_ofNat']
      omega
    have hfirst : buf.bytes[offset]? = some (UInt8.ofNat n) := by
      rw [← List.head?_drop, h.2]
      rfl
    have hlt : UInt8.ofNat n < 0xFD := by
      rw [UInt8.lt_iff_toNat_lt, hbyte]
      exact h₁
    unfold readVarint
    simp only [hfirst, Option.any_some, hlt, decide_true, if_true, Option.getD_some, hbyte]
    rfl
  -- two, four and eight bytes behind a prefix
  · have hfirst : buf.bytes[offset]? = some 0xFD := by
      rw [← List.head?_drop, h.2]
      rfl
    have htail : At buf.bytes (offset + 1) (leBytes 2 n ++ rest) := @At.advance _ _ [0xFD] _ h
    have hread : buf.readUInt16LE (offset + 1) = .ok n := by
      rw [Buffer.readUInt16LE, Buffer.readUIntLE_at htail (length_leBytes ..), leNat_leBytes 2 h₂]
    unfold readVarint
    simp only [hfirst, hread]
    rfl
  · have hfirst : buf.bytes[offset]? = some 0xFE := by
      rw [← List.head?_drop, h.2]
      rfl
    have htail : At buf.bytes (offset + 1) (uint32Bytes (UInt32.ofNat n) ++ rest) := by
      have hvalue : (UInt32.ofNat n).toNat = n := by
        rw [UInt32.toNat_ofNat']
        omega
      rw [uint32Bytes, hvalue]
      exact @At.advance _ _ [0xFE] _ h
    have hvalue : (UInt32.ofNat n).toNat = n := by
      rw [UInt32.toNat_ofNat']
      omega
    unfold readVarint
    simp only [hfirst, Buffer.readUInt32LE_at htail, bind, Except.bind, hvalue]
    rfl
  · have hfirst : buf.bytes[offset]? = some 0xFF := by
      rw [← List.head?_drop, h.2]
      rfl
    have htail : At buf.bytes (offset + 1) (leBytes 8 n ++ rest) := @At.advance _ _ [0xFF] _ h
    obtain ⟨lo, hi, hlo, hhi, hvalue⟩ := readHalves_at hn htail
    unfold readVarint
    simp only [hfirst, hlo, show offset + 5 = offset + 1 + 4 from rfl, hhi, bind, Except.bind, hvalue]
    rfl

theorem skipAuxVarBytes_at {bs : List UInt8} (h : At buf.bytes offset (varBytes bs ++ rest)) :
    skipAuxVarBytes buf offset = .ok (offset + (varBytes bs).length) := by
  simp only [varBytes, List.append_assoc] at h
  have hbs : bs.length < 2 ^ 64 := lt_of_le_of_lt (Buffer.at_safe h.advance) (by decide)
  rw [skipAuxVarBytes, readVarint_at h hbs, varBytes, List.length_append]
  rfl

/-- A count, and a loop over what it counts. -/
theorem readVarint_repeatFrom_at {enc : α → List UInt8} {step : ℕ → Except Thrown ℕ} {l : List α}
    (hpos : ∀ a ∈ l, 1 ≤ (enc a).length)
    (hstep : ∀ a offset rest, At buf.bytes offset (enc a ++ rest) →
      step offset = .ok (offset + (enc a).length))
    (h : At buf.bytes offset (counted enc l ++ rest)) :
    readVarint buf offset = .ok ⟨l.length, (compactSize l.length).length⟩ ∧
      repeatFrom step l.length (offset + (compactSize l.length).length) =
        .ok (offset + (counted enc l).length) := by
  simp only [counted, List.append_assoc] at h
  have hsafe := Buffer.at_safe h.advance
  have hlength := mul_length_le_flatMap hpos
  have hmax : MAX_SAFE_INTEGER < 2 ^ 64 := by decide
  refine ⟨readVarint_at h (by omega), ?_⟩
  rw [repeatFrom_at hstep h.advance, counted, List.length_append, Nat.add_assoc]

theorem skipCoinbaseIn_at (i : TxIn) (offset : ℕ) (rest : List UInt8)
    (h : At buf.bytes offset (i.bytes ++ rest)) :
    skipCoinbaseIn buf offset = .ok (offset + i.bytes.length) := by
  simp only [TxIn.bytes, List.append_assoc] at h
  have hscript := h.advance
  have hsequence := hscript.advance
  rw [TxIn.length_prevout] at hscript hsequence
  have hprevout := skipAuxBytes_at "coinbase input prevout" h (TxIn.length_prevout i)
  have hlast := skipAuxBytes_at "coinbase input sequence" hsequence (length_uint32Bytes _)
  rw [skipCoinbaseIn, hprevout]
  simp only [bind, Except.bind, skipAuxVarBytes_at hscript, hlast]
  simp only [TxIn.bytes, List.length_append, TxIn.length_prevout, length_uint32Bytes, Nat.add_assoc]

theorem skipCoinbaseOut_at (o : TxOut) (offset : ℕ) (rest : List UInt8)
    (h : At buf.bytes offset (o.bytes ++ rest)) :
    skipCoinbaseOut buf offset = .ok (offset + o.bytes.length) := by
  simp only [TxOut.bytes, List.append_assoc] at h
  have hscript := h.advance
  rw [length_leBytes] at hscript
  have hvalue := skipAuxBytes_at "coinbase output value" h (length_leBytes 8 _)
  rw [skipCoinbaseOut, hvalue]
  simp only [bind, Except.bind, skipAuxVarBytes_at hscript, TxOut.bytes, List.length_append,
    length_leBytes, Nat.add_assoc]

theorem skipCoinbaseStack_at (i : TxIn) (offset : ℕ) (rest : List UInt8)
    (h : At buf.bytes offset (i.witnessBytes ++ rest)) :
    skipCoinbaseStack buf offset = .ok (offset + i.witnessBytes.length) := by
  have hitems := readVarint_repeatFrom_at (fun bs _ => length_varBytes_pos bs)
    (fun _ _ _ => skipAuxVarBytes_at) h
  rw [skipCoinbaseStack, hitems.1]
  exact hitems.2

/-- The byte behind the version tells the two plain forms apart. -/
theorem hasSegwit_at {t : Transaction} (hins : t.ins ≠ [])
    (h : At buf.bytes offset ((if t.hasWitnesses then [0x00, 0x01] else []) ++ (t.vin ++ rest))) :
    (buf.bytes[offset]? == some 0x00) = t.hasWitnesses := by
  rw [← List.head?_drop, h.2]
  cases hwitness : t.hasWitnesses with
  | true => rfl
  | false =>
    have hcount : t.ins.length ≠ 0 := fun hzero => hins (List.length_eq_zero_iff.mp hzero)
    obtain ⟨b, tail, hhead, hb⟩ := compactSize_head hcount
    simp [Transaction.vin, counted, hhead, hb]

theorem skipCoinbaseTransaction_at {t : Transaction} (hins : t.ins ≠ [])
    (h : At buf.bytes offset (t.plain ++ rest)) :
    skipCoinbaseTransaction buf offset = .ok (offset + t.plain.length) := by
  have hlength : t.plain.length = 4 + (if t.hasWitnesses then 2 else 0) + t.vin.length +
      t.vout.length + t.witnesses.length + 4 := by
    simp only [Transaction.plain, Transaction.body, List.length_append, length_uint32Bytes,
      Transaction.length_versionBytes]
    split_ifs <;> simp only [List.length_cons, List.length_nil] <;> omega
  simp only [Transaction.plain, Transaction.body, List.append_assoc] at h
  have hmarker := h.advance
  rw [Transaction.length_versionBytes] at hmarker
  have hsegwit := hasSegwit_at hins hmarker
  have hvin : At buf.bytes (if t.hasWitnesses then offset + 4 + 2 else offset + 4)
      (t.vin ++ (t.vout ++ (t.witnesses ++ (uint32Bytes t.locktime ++ rest)))) := by
    have hafter := hmarker.advance
    split_ifs at hafter ⊢
    · exact hafter
    · exact hafter
  generalize hfrom : (if t.hasWitnesses then offset + 4 + 2 else offset + 4) = start at hvin
  have hvout := hvin.advance
  have hwitness := hvout.advance
  have hlocktime := hwitness.advance
  have hversion := skipAuxBytes_at "coinbase version" h (Transaction.length_versionBytes t)
  have hinputs := readVarint_repeatFrom_at (fun i _ => TxIn.length_bytes_pos i) skipCoinbaseIn_at hvin
  have houtputs := readVarint_repeatFrom_at (fun o _ => TxOut.length_bytes_pos o) skipCoinbaseOut_at hvout
  -- the stacks are read only where the marker says so
  have hstacks : (if t.hasWitnesses then
      repeatFrom (skipCoinbaseStack buf) t.ins.length (start + t.vin.length + t.vout.length)
      else .ok (start + t.vin.length + t.vout.length) : Except Thrown ℕ) =
        .ok (start + t.vin.length + t.vout.length + t.witnesses.length) := by
    by_cases hhas : t.hasWitnesses = true
    · rw [if_pos hhas]
      simp only [Transaction.witnesses, if_pos hhas] at hwitness ⊢
      exact repeatFrom_at skipCoinbaseStack_at hwitness
    · rw [if_neg hhas]
      simp only [Transaction.witnesses, if_neg hhas, List.length_nil, Nat.add_zero]
  have hlast := skipAuxBytes_at "coinbase locktime" hlocktime (length_uint32Bytes _)
  have hvinLength : (counted TxIn.bytes t.ins).length = t.vin.length := rfl
  have hvoutLength : (counted TxOut.bytes t.outs).length = t.vout.length := rfl
  rw [hvinLength] at hinputs
  rw [hvoutLength] at houtputs
  rw [skipCoinbaseTransaction, hversion]
  simp only [bind, Except.bind, hsegwit, hfrom, hinputs.1, hinputs.2, houtputs.1, houtputs.2]
  rw [hstacks]
  simp only [hlast, Except.ok.injEq]
  rw [hlength, ← hfrom]
  split_ifs <;> omega

theorem skipBranch_at {branch : List (Vector UInt8 32)} {index : UInt32} (what : String)
    (h : At buf.bytes offset (branchBytes branch index ++ rest)) :
    skipBranch buf offset what = .ok (offset + (branchBytes branch index).length) := by
  have hflat : (branch.flatMap Vector.toList).length = branch.length * 32 := by
    rw [List.length_flatMap]
    simp
  simp only [branchBytes, counted, List.append_assoc] at h
  have hafter := h.advance
  have hsafe := Buffer.at_safe hafter
  have hmax : MAX_SAFE_INTEGER < 2 ^ 64 := by decide
  have hread := readVarint_at h (by omega)
  have hbody : At buf.bytes (offset + (compactSize branch.length).length)
      ((branch.flatMap Vector.toList ++ uint32Bytes index) ++ rest) := by
    rw [List.append_assoc]
    exact hafter
  have hskip := skipAuxBytes_at what hbody
    (show _ = branch.length * 32 + 4 by rw [List.length_append, hflat, length_uint32Bytes])
  rw [skipBranch, hread]
  simp only [bind, Except.bind, hskip, branchBytes, counted, List.length_append, hflat,
    length_uint32Bytes, Nat.add_assoc]

/-- **The walk ends where the section ends.** -/
theorem skipAuxPow_at (a : AuxPow) (h : At buf.bytes offset (a.bytes ++ rest)) :
    skipAuxPow buf offset = .ok (offset + a.bytes.length) := by
  simp only [AuxPow.bytes, List.append_assoc] at h
  have hhash := h.advance
  have hcoinbase := hhash.advance
  have hchain := hcoinbase.advance
  have hheader := hchain.advance
  simp only [Vector.length_toList] at hcoinbase hchain hheader
  have hparent := skipAuxBytes_at "parent block hash" hhash Vector.length_toList
  have hlast := skipAuxBytes_at "parent block header" hheader (BlockHeader.length_bytes _)
  rw [skipAuxPow, skipCoinbaseTransaction_at a.has_input h]
  simp only [bind, Except.bind, hparent, skipBranch_at _ hcoinbase, skipBranch_at _ hchain, hlast]
  simp only [AuxPow.bytes, List.length_append, Vector.length_toList, BlockHeader.length_bytes,
    Nat.add_assoc]

end XChainDecoder.Wire
