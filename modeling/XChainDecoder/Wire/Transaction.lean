import XChainDecoder.Lib.Bytes

/-! # Transactions on the wire

    A transaction and a block header as bitcoinjs holds them, the bytes they are
    written in, and the bytes Litecoin writes for a transaction with an MWEB part.
    Nothing here is code of the decoder: these are the forms its readers are held
    against.

    Plain (BIP144) form: version, marker and flag where some input has a witness,
    inputs, outputs, witnesses, lock time. Litecoin's flagged form: version, a zero
    marker, a flag byte whose bit 0x08 announces the MWEB part and whose bit 0x01
    the witnesses, inputs, outputs, witnesses, MWEB part, lock time. -/

namespace XChainDecoder.Wire

open Bytes

structure TxIn where
  hash     : Vector UInt8 32
  index    : UInt32
  script   : List UInt8
  sequence : UInt32
  witness  : List (List UInt8)
deriving DecidableEq

structure TxOut where
  value  : UInt64
  script : List UInt8
deriving DecidableEq

structure Transaction where
  version  : Int32
  ins      : List TxIn
  outs     : List TxOut
  locktime : UInt32
deriving DecidableEq

/-! ## Section 1: Pieces -/

def uint32Bytes (n : UInt32) : List UInt8 := leBytes 4 n.toNat

@[simp] theorem length_uint32Bytes (n : UInt32) : (uint32Bytes n).length = 4 :=
  length_leBytes ..

def TxIn.prevout (i : TxIn) : List UInt8 := i.hash.toList ++ uint32Bytes i.index

@[simp] theorem TxIn.length_prevout (i : TxIn) : i.prevout.length = 36 := by
  simp [prevout]

def TxIn.bytes (i : TxIn) : List UInt8 :=
  i.prevout ++ varBytes i.script ++ uint32Bytes i.sequence

def TxOut.bytes (o : TxOut) : List UInt8 := leBytes 8 o.value.toNat ++ varBytes o.script

/-- The witness stack of an input. -/
def TxIn.witnessBytes (i : TxIn) : List UInt8 := counted varBytes i.witness

namespace Transaction

def hasWitnesses (t : Transaction) : Bool := t.ins.any (fun i => !i.witness.isEmpty)

def versionBytes (t : Transaction) : List UInt8 := uint32Bytes t.version.toUInt32

@[simp] theorem length_versionBytes (t : Transaction) : t.versionBytes.length = 4 :=
  length_uint32Bytes _

def vin (t : Transaction) : List UInt8 := counted TxIn.bytes t.ins

def vout (t : Transaction) : List UInt8 := counted TxOut.bytes t.outs

/-- The witness stacks, where some input has one. -/
def witnesses (t : Transaction) : List UInt8 :=
  if t.hasWitnesses then t.ins.flatMap TxIn.witnessBytes else []

/-- What follows the flags in either form, up to the lock time. -/
def body (t : Transaction) : List UInt8 := t.vin ++ t.vout ++ t.witnesses

/-- The plain form. -/
def plain (t : Transaction) : List UInt8 :=
  t.versionBytes ++ (if t.hasWitnesses then [0x00, 0x01] else []) ++ t.body ++
    uint32Bytes t.locktime

end Transaction

/-! ## Section 2: The flagged form -/

/-- The MWEB part: the null tag of a HogEx, or a body behind a tag that is not
    null. -/
inductive MwebPart where
  | null
  | body (tag : UInt8) (rest : List UInt8) (htag : tag ≠ 0)

def MwebPart.bytes : MwebPart → List UInt8
  | .null            => [0x00]
  | .body tag rest _ => tag :: rest

namespace Transaction

/-- Bit 0x08 for the MWEB part, bit 0x01 for the witnesses. -/
def mwebFlag (t : Transaction) : UInt8 := if t.hasWitnesses then 0x09 else 0x08

/-- The flagged form up to the MWEB part. -/
def flaggedHead (t : Transaction) : List UInt8 :=
  t.versionBytes ++ [0x00, t.mwebFlag] ++ t.body

/-- The flagged form. -/
def flagged (t : Transaction) (part : MwebPart) : List UInt8 :=
  t.flaggedHead ++ part.bytes ++ uint32Bytes t.locktime

theorem hasWitnesses_of_ins_nil {t : Transaction} (h : t.ins = []) : t.hasWitnesses = false := by
  simp [hasWitnesses, h]

/-- No transaction is written in fewer than ten bytes. -/
theorem length_plain (t : Transaction) : 10 ≤ t.plain.length := by
  have hins := length_compactSize_pos t.ins.length
  have houts := length_compactSize_pos t.outs.length
  simp only [plain, body, vin, vout, counted, List.length_append, length_versionBytes,
    length_uint32Bytes]
  omega

theorem length_flagged (t : Transaction) (part : MwebPart) : 10 ≤ (t.flagged part).length := by
  have hins := length_compactSize_pos t.ins.length
  have houts := length_compactSize_pos t.outs.length
  simp only [flagged, flaggedHead, body, vin, vout, counted, List.length_append,
    length_versionBytes, length_uint32Bytes]
  omega

end Transaction

/-! ## Section 3: Blocks -/

structure BlockHeader where
  version    : Int32
  prevHash   : Vector UInt8 32
  merkleRoot : Vector UInt8 32
  timestamp  : UInt32
  bits       : UInt32
  nonce      : UInt32
deriving DecidableEq

def BlockHeader.bytes (h : BlockHeader) : List UInt8 :=
  uint32Bytes h.version.toUInt32 ++ h.prevHash.toList ++ h.merkleRoot.toList ++
    uint32Bytes h.timestamp ++ uint32Bytes h.bits ++ uint32Bytes h.nonce

@[simp] theorem BlockHeader.length_bytes (h : BlockHeader) : h.bytes.length = 80 := by
  simp [bytes]

/-- A parsed block. A header-only parse has no transactions at all. -/
structure Block where
  header        : BlockHeader
  transactions  : Option (List Transaction)
  witnessCommit : Option (List UInt8)
deriving DecidableEq

end XChainDecoder.Wire
