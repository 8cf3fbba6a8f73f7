import XChainDecoder.Hash
import XChainDecoder.Wire.Transaction

/-! # The Litecoin readers

    The readers of `XChainBlockDecoder.js`: the bounds-checked walk over a flagged
    transaction, the transaction that is rebuilt from it, and the reading of a whole
    block.

    A read of a buffer past its end (`buf[i]` that is undefined, a `readUInt32LE`
    out of range, a `subarray` that is cut short) is the error `outOfRange`, so that
    never reading past the end is never throwing it. The functions of bitcoinjs the
    readers call are the fields of `BitcoinJs`. -/

namespace XChainDecoder.Wire

open Bytes

/-! ## Section 1: Buffers -/

def MAX_SAFE_INTEGER : ℕ := 2 ^ 53 - 1

/-- A Node buffer. Its length is a safe integer. -/
structure Buffer where
  bytes : List UInt8
  safe  : bytes.length ≤ MAX_SAFE_INTEGER

/-- A string. Its length is a safe integer. -/
structure JsString where
  chars : List Char
  safe  : chars.length ≤ MAX_SAFE_INTEGER

/-- What a reader throws. -/
inductive Thrown where
  | error (message : String)
  /-- a `TransactionParseError` -/
  | transactionParse (message : String) (cause : Option Thrown)
  | outOfRange

/-- A read past the end of a buffer is what the error comes from. -/
def Thrown.readsPastEnd : Thrown → Bool
  | .error _                           => false
  | .transactionParse _ none           => false
  | .transactionParse _ (some cause) => cause.readsPastEnd
  | .outOfRange                        => true

def Thrown.message : Thrown → String
  | .error message              => message
  | .transactionParse message _ => message
  | .outOfRange                 => "The value of \"offset\" is out of range."

/-- Wrap an error that is not yet a `TransactionParseError`. -/
def transactionParseError (message : String) : Thrown → Thrown
  | .transactionParse m cause => .transactionParse m cause
  | cause                     => .transactionParse message (some cause)

namespace Buffer

def length (buf : Buffer) : ℕ := buf.bytes.length

/-- `buf[offset]` -/
def byteAt (buf : Buffer) (offset : ℕ) : Except Thrown UInt8 :=
  match buf.bytes[offset]? with
  | some b => .ok b
  | none   => .error .outOfRange

/-- `width` bytes at `offset`, as an unsigned little-endian number. -/
def readUIntLE (buf : Buffer) (offset width : ℕ) : Except Thrown ℕ :=
  if offset + width ≤ buf.length then .ok (leNat ((buf.bytes.drop offset).take width))
  else .error .outOfRange

def readUInt16LE (buf : Buffer) (offset : ℕ) : Except Thrown ℕ := buf.readUIntLE offset 2

def readUInt32LE (buf : Buffer) (offset : ℕ) : Except Thrown UInt32 :=
  (buf.readUIntLE offset 4).map UInt32.ofNat

def readInt32LE (buf : Buffer) (offset : ℕ) : Except Thrown Int32 :=
  (buf.readUInt32LE offset).map UInt32.toInt32

def readBigUInt64LE (buf : Buffer) (offset : ℕ) : Except Thrown UInt64 :=
  (buf.readUIntLE offset 8).map UInt64.ofNat

/-- The bytes from `start` to `stop`. -/
def subarray (buf : Buffer) (start stop : ℕ) : Except Thrown (List UInt8) :=
  if start ≤ stop ∧ stop ≤ buf.length then .ok ((buf.bytes.drop start).take (stop - start))
  else .error .outOfRange

end Buffer

/-- `for (let i = 0; i < n; i++) offset = step(offset)` -/
def repeatFrom (step : ℕ → Except Thrown ℕ) : ℕ → ℕ → Except Thrown ℕ
  | 0,     offset => .ok offset
  | n + 1, offset => do
    let offset ← step offset
    repeatFrom step n offset

/-! ## Section 2: Walking a flagged transaction -/

def LITECOIN_HOGEX_FLAG : UInt8 := 0x08
def LITECOIN_MWEB_SEGWIT_FLAG : UInt8 := 0x09

def mwebShortError (what : String) : Thrown :=
  .error ("MWEB tx parse: buffer too short for " ++ what)

def skipMwebBytes (buf : Buffer) (offset count : ℕ) (what : String) : Except Thrown ℕ :=
  if (count : ℤ) > buf.length - offset then .error (mwebShortError what)
  else .ok (offset + count)

/-- A CompactSize and the offset behind it. -/
structure CompactSize where
  value     : ℕ
  endOffset : ℕ
deriving DecidableEq

def readMwebCompactSize (buf : Buffer) (offset : ℕ) (what : String) : Except Thrown CompactSize :=
  if offset ≥ buf.length then .error (mwebShortError what)
  else do
    let first ← buf.byteAt offset
    if first < 0xFD then return ⟨first.toNat, offset + 1⟩
    else do
      let width := if first = 0xFD then 2 else if first = 0xFE then 4 else 8
      let endOffset ← skipMwebBytes buf (offset + 1) width what
      if width = 2 then return ⟨← buf.readUInt16LE (offset + 1), endOffset⟩
      else if width = 4 then return ⟨(← buf.readUInt32LE (offset + 1)).toNat, endOffset⟩
      else do
        let value ← buf.readBigUInt64LE (offset + 1)
        if value.toNat > MAX_SAFE_INTEGER then
          throw (.transactionParse ("MWEB tx parse: " ++ what ++ " exceeds Number.MAX_SAFE_INTEGER")
            none)
        else return ⟨value.toNat, endOffset⟩

def skipMwebVarBytes (buf : Buffer) (offset : ℕ) (what : String) : Except Thrown ℕ := do
  let length ← readMwebCompactSize buf offset what
  skipMwebBytes buf length.endOffset length.value what

/-- One input. -/
def skipMwebIn (buf : Buffer) (offset : ℕ) : Except Thrown ℕ := do
  let offset ← skipMwebBytes buf offset 36 "input prevout"
  let offset ← skipMwebVarBytes buf offset "input script"
  skipMwebBytes buf offset 4 "input sequence"

/-- One output. -/
def skipMwebOut (buf : Buffer) (offset : ℕ) : Except Thrown ℕ := do
  let offset ← skipMwebBytes buf offset 8 "output value"
  skipMwebVarBytes buf offset "output script"

/-- Where vin and vout end, where vout starts, and the input count. -/
structure InsAndOuts where
  endOffset : ℕ
  outsStart : ℕ
  nIns      : ℕ
deriving DecidableEq

def skipMwebInsAndOuts (buf : Buffer) (offset : ℕ) : Except Thrown InsAndOuts := do
  let ins ← readMwebCompactSize buf offset "input count"
  let outsStart ← repeatFrom (skipMwebIn buf) ins.value ins.endOffset
  let outs ← readMwebCompactSize buf outsStart "output count"
  let endOffset ← repeatFrom (skipMwebOut buf) outs.value outs.endOffset
  return ⟨endOffset, outsStart, ins.value⟩

/-- The witness stack of one input. -/
def skipMwebStack (buf : Buffer) (offset : ℕ) : Except Thrown ℕ := do
  let items ← readMwebCompactSize buf offset "witness item count"
  repeatFrom (fun offset => skipMwebVarBytes buf offset "witness item") items.value items.endOffset

def skipMwebWitness (buf : Buffer) (offset nIns : ℕ) : Except Thrown ℕ :=
  repeatFrom (skipMwebStack buf) nIns offset

/-- Version 1 or 2, the zero marker, and flag 0x08 or 0x09. -/
def hasMwebFlag (buf : Buffer) (offset : ℕ) : Except Thrown Bool :=
  if (buf.length : ℤ) - offset < 6 then .ok false
  else do
    let version ← buf.readUInt32LE offset
    let flag ← buf.byteAt (offset + 5)
    let marker ← buf.byteAt (offset + 4)
    return decide ((version = 1 ∨ version = 2) ∧ marker = 0x00 ∧
      (flag = LITECOIN_HOGEX_FLAG ∨ flag = LITECOIN_MWEB_SEGWIT_FLAG))

/-! ## Section 3: Reading a flagged transaction -/

/-- What the readers take from bitcoinjs-lib and varuint-bitcoin. -/
structure BitcoinJs where
  /-- `Transaction.fromBuffer(buffer, noStrict)` -/
  transactionFromBuffer : List UInt8 → Bool → Except String Transaction
  /-- `tx.byteLength()` -/
  byteLength : Transaction → ℕ
  /-- `Block.calculateMerkleRoot(txs)` -/
  calculateMerkleRoot : List Transaction → Vector UInt8 32
  /-- `block.getWitnessCommit()` -/
  getWitnessCommit : List Transaction → Option (List UInt8)
  /-- `varuint.decode(buffer, offset)` with `varuint.decode.bytes` -/
  varuintDecode : List UInt8 → ℕ → Except String (ℕ × ℕ)
  /-- `Block.fromBuffer(buffer)` -/
  blockFromBuffer : List UInt8 → Except String Block
  /-- `block.byteLength()` -/
  blockByteLength : Block → ℕ

variable (js : BitcoinJs)

/-- An error bitcoinjs throws. -/
def fromBitcoinJs {α : Type} (r : Except String α) : Except Thrown α := r.mapError Thrown.error

/-- The outputs, read again by value. -/
def readMwebOuts (buf : Buffer) : ℕ → ℕ → Except Thrown (List TxOut)
  | 0,     _      => .ok []
  | n + 1, offset => do
    let value ← buf.readBigUInt64LE offset
    let script ← readMwebCompactSize buf (offset + 8) "output script"
    let offset := script.endOffset + script.value
    let scriptBytes ← buf.subarray script.endOffset offset
    let outs ← readMwebOuts buf n offset
    return ⟨value, scriptBytes⟩ :: outs

def buildInputlessTransaction (buf : Buffer) (start outsStart lockTimeAt : ℕ) :
    Except Thrown Transaction := do
  let version ← buf.readInt32LE start
  let outs ← readMwebCompactSize buf outsStart "output count"
  let outs ← readMwebOuts buf outs.value outs.endOffset
  let locktime ← buf.readUInt32LE lockTimeAt
  return ⟨version, [], outs, locktime⟩

structure MwebRead where
  tx       : Transaction
  consumed : ℕ
deriving DecidableEq

/-- Where the lock time starts: behind a null tag, and behind any other tag four
    bytes before the end of a standalone transaction. -/
def mwebLockTimeAt (buf : Buffer) (witnessEnd tagEnd : ℕ) (standalone : Bool) : Except Thrown ℕ := do
  let tag ← buf.byteAt witnessEnd
  if tag ≠ 0x00 then
    if !standalone then
      throw (.error "MWEB tx parse: a non-null MWEB part inside a block has no recorded length")
    else if (buf.length : ℤ) - 4 < tagEnd then throw (mwebShortError "locktime")
    else return buf.length - 4
  else return tagEnd

def readMwebFlaggedTransaction (buf : Buffer) (start : ℕ) (standalone : Bool) :
    Except Thrown MwebRead := do
  let flag ← buf.byteAt (start + 5)
  let withWitness := flag &&& 1 == 1
  let insOuts ← skipMwebInsAndOuts buf (start + 6)
  let witnessEnd ← (if withWitness then skipMwebWitness buf insOuts.endOffset insOuts.nIns
    else .ok insOuts.endOffset : Except Thrown ℕ)
  let tagEnd ← skipMwebBytes buf witnessEnd 1 "MWEB tag"
  let lockTimeAt ← mwebLockTimeAt buf witnessEnd tagEnd standalone
  let endOffset ← skipMwebBytes buf lockTimeAt 4 "locktime"
  if insOuts.nIns = 0 then
    return ⟨← buildInputlessTransaction buf start insOuts.outsStart lockTimeAt, endOffset - start⟩
  else do
    let version ← buf.subarray start (start + 4)
    let body ← buf.subarray (start + 6) witnessEnd
    let lockTime ← buf.subarray lockTimeAt endOffset
    let plain := version ++ (if withWitness then [0x00, 0x01] else []) ++ body ++ lockTime
    return ⟨← fromBitcoinJs (js.transactionFromBuffer plain false), endOffset - start⟩

/-! ## Section 4: Blocks -/

/-- How a coin writes its blocks. -/
inductive WireFormat where
  | default
  | mweb
  | auxpow
deriving DecidableEq, Repr

def assertBlockBodyIntact (header : BlockHeader) (txs : List Transaction)
    (bufferLength bodyEnd : ℕ) (extensionFollows : Bool) : Except Thrown Unit :=
  if txs.length < 1 then .error (.error "Block holds no transactions")
  else if bodyEnd ≠ bufferLength ∧ extensionFollows = false then
    .error (.error ("Block has " ++ toString ((bufferLength : ℤ) - bodyEnd) ++
      " bytes after its last transaction"))
  else if js.calculateMerkleRoot txs ≠ header.merkleRoot then
    .error (.error "Block merkle root mismatch: the header root is not the root of its transactions")
  else .ok ()

/-- What is read of a block: its transactions, the offset behind them, and whether
    the last one is a HogEx. -/
structure BlockBody where
  transactions : List Transaction
  offset       : ℕ
  hogExLast    : Bool

/-- The next `n` transactions. -/
def readMwebBody (buf : Buffer) : ℕ → ℕ → Except Thrown BlockBody
  | 0,     offset => .ok ⟨[], offset, false⟩
  | n + 1, offset => do
    let flagged ← (if n = 0 then hasMwebFlag buf offset else .ok false : Except Thrown Bool)
    if flagged then do
      let read ← readMwebFlaggedTransaction js buf offset false
      return ⟨[read.tx], offset + read.consumed, true⟩
    else do
      let tx ← fromBitcoinJs (js.transactionFromBuffer (buf.bytes.drop offset) true)
      let body ← readMwebBody buf n (offset + js.byteLength tx)
      return { body with transactions := tx :: body.transactions }

def readMwebTransactions (buf : Buffer) (offset : ℕ) : Except Thrown BlockBody := do
  let (nTransactions, width) ← fromBitcoinJs (js.varuintDecode buf.bytes offset)
  let offset := offset + width
  let remainingBytes : ℤ := buf.length - offset
  if 10 * (nTransactions : ℤ) > remainingBytes then
    throw (.error ("Block declares " ++ toString nTransactions ++ " transactions but only " ++
      toString remainingBytes ++ " bytes remain (invalid transaction count)"))
  else readMwebBody js buf nTransactions offset

def readHash (buf : Buffer) (offset : ℕ) : Except Thrown (Vector UInt8 32) :=
  if h : offset + 32 ≤ buf.bytes.length then
    .ok ⟨((buf.bytes.drop offset).take 32).toArray, by simp; omega⟩
  else .error (.error "Cannot read slice out of bounds")

def readHeader (buf : Buffer) : Except Thrown BlockHeader := do
  let version ← buf.readInt32LE 0
  let prevHash ← readHash buf 4
  let merkleRoot ← readHash buf 36
  let timestamp ← buf.readUInt32LE 68
  let bits ← buf.readUInt32LE 72
  let nonce ← buf.readUInt32LE 76
  return ⟨version, prevHash, merkleRoot, timestamp, bits, nonce⟩

/-- Wrap what a parse throws. -/
def wrapParse {α : Type} (what : String) (r : Except Thrown α) : Except Thrown α :=
  r.mapError (fun err => transactionParseError (what ++ err.message) err)

def blockFromBuffer (format : WireFormat) (buf : Buffer) : Except Thrown Block :=
  match format with
  | .mweb =>
    if buf.length < 80 then .error (.error "Buffer too small (< 80 bytes)")
    else do
      let header ← readHeader buf
      if buf.length = 80 then return ⟨header, none, none⟩
      else do
        let body ← wrapParse "Block transaction parse failed: " (readMwebTransactions js buf 80)
        assertBlockBodyIntact js header body.transactions buf.length body.offset body.hogExLast
        return ⟨header, some body.transactions, js.getWitnessCommit body.transactions⟩
  | _ => do
    let plainBlock ← wrapParse "Block transaction parse failed: "
      (fromBitcoinJs (js.blockFromBuffer buf.bytes))
    if buf.length = 80 then return plainBlock
    else do
      assertBlockBodyIntact js plainBlock.header (plainBlock.transactions.getD []) buf.length
        (js.blockByteLength plainBlock) false
      return plainBlock

/-! ## Section 5: A transaction in hex -/

/-- The value of a hex digit. -/
def hexValue (c : Char) : ℕ :=
  if c ≤ '9' then c.toNat - 48 else if c ≤ 'F' then c.toNat - 55 else c.toNat - 87

/-- The bytes of pairs of hex digits. -/
def ofHex : List Char → List UInt8
  | a :: b :: cs => UInt8.ofNat (16 * hexValue a + hexValue b) :: ofHex cs
  | _            => []

theorem length_ofHex_le (cs : List Char) : (ofHex cs).length ≤ cs.length := by
  fun_induction ofHex cs with
  | case1 a b cs ih =>
    simp only [List.length_cons]
    omega
  | case2 cs h => simp

/-- `Buffer.from(txHex, "hex")` -/
def Buffer.ofHex (txHex : JsString) : Buffer where
  bytes := Wire.ofHex txHex.chars
  safe := (length_ofHex_le _).trans txHex.safe

def trailingError (n : ℤ) : Thrown :=
  .transactionParse ("Transaction has " ++ toString n ++ " trailing byte(s)") none

def transactionFromHex (format : WireFormat) (txHex : JsString) : Except Thrown Transaction :=
  wrapParse "Transaction parse failed: " <|
    if txHex.chars.length = 0 ∨ txHex.chars.length % 2 ≠ 0 ∨ ¬txHex.chars.all isHexDigit then
      .error (.transactionParse
        "Transaction hex must be a non-empty, even-length hexadecimal string" none)
    else do
      let buffer := Buffer.ofHex txHex
      let flagged ← (if format = .mweb then hasMwebFlag buffer 0 else .ok false :
        Except Thrown Bool)
      if flagged then do
        let parsed ← readMwebFlaggedTransaction js buffer 0 true
        if parsed.consumed ≠ buffer.length then
          throw (trailingError ((buffer.length : ℤ) - parsed.consumed))
        else return parsed.tx
      else do
        let tx ← fromBitcoinJs (js.transactionFromBuffer buffer.bytes true)
        if js.byteLength tx ≠ buffer.length then
          throw (trailingError ((buffer.length : ℤ) - js.byteLength tx))
        else return tx

end XChainDecoder.Wire
