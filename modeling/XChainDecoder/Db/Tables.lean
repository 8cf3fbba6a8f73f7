import XChainDecoder.Hash
import XChainDecoder.Lib.Index

/-! # The decoder's tables

    The rows the block loop reads and writes, one structure for each table of
    the schema, and the block statements of the database layer as functions on
    the tables. A statement that fails is not described here: inside a
    transaction it is rolled back, so it leaves no trace in the tables.

    Heights, times and transaction indexes are integers (an empty table answers
    the height -1). `weight` is the column collation: two strings are the same
    address to the database when their weights agree. Hash columns hold
    lowercase hex, which the collation tells apart exactly. -/

namespace XChainDecoder

/-! ## Section 1: Rows -/

structure BlockRow where
  blockIndex          : Int
  blockTime           : Int
  blockHashId         : Nat
  previousBlockHashId : Nat
deriving DecidableEq, Repr

structure TransactionRow where
  txIndex       : Int
  txHashId      : Nat
  blockIndex    : Int
  sourceId      : Nat
  destinationId : Nat
  data          : String
  rawData       : Option (List UInt8)
deriving DecidableEq, Repr

structure TransactionOutputRow where
  txIndex       : Int
  vout          : Nat
  destinationId : Nat
  amount        : Int
deriving DecidableEq, Repr

structure DispenserRow where
  txIndex           : Int
  addressId         : Nat
  expiration        : Int
  oracleAddressId   : Option Nat
  sourceAddressId   : Option Nat
  /-- `none` while open, else the height that expired it -/
  expiredBlockIndex : Option Int
deriving DecidableEq, Repr

structure ExtensionUndoRow where
  blockIndex             : Int
  txIndex                : Int
  addressId              : Nat
  priorExpiration        : Int
  priorExpiredBlockIndex : Option Int
deriving DecidableEq, Repr

structure PubkeyRow where
  addressId : Nat
  pubkey    : String
deriving DecidableEq, Repr

/-- Why a rollback halted, with the numbers its message names. -/
inductive HaltReason where
  | safeDepthExceeded (safeDepth rolledBack inThisRun resumedFrom : Nat) (lastBlockIndex : Int)
  | deepGap (nodeTip : Int) (boundaryHash : Option Hash) (aboveTip : Int)
      (alreadyRolledBack safeDepth : Nat)
  | deleteFailedAboveTip
  | deleteFailedHashCompare
deriving DecidableEq, Repr

/-- A row of the append-only `events` table, by its code. -/
inductive Event where
  | parseError (time blockIndex : Int) (txPosition : Nat) (txHash : Option Hash) (error : String)
  | reorg (deleted : List (Int × Hash))
  | reorgHalt (reason : HaltReason)
  /-- `audit` is the recorded reason, or `none` for a row without the audited shape -/
  | reorgHaltCleared (audit : Option String)
deriving DecidableEq, Repr

/-- The payload of a REORG row. -/
def Event.reorgPayload : Event → Option (List (Int × Hash))
  | .reorg deleted => some deleted
  | _              => none

/-- The rows that decide the halt state. -/
def Event.isHalt : Event → Bool
  | .reorgHalt _        => true
  | .reorgHaltCleared _ => true
  | _                   => false

/-- The tables a rollback has to take back. -/
@[ext] structure ChainRows where
  blocks                 : List BlockRow
  transactions           : List TransactionRow
  transactionOutputs     : List TransactionOutputRow
  dispensers             : List DispenserRow
  dispenserExtensionUndo : List ExtensionUndoRow
deriving DecidableEq, Repr

/-- The database: the chain rows, and the lookup and audit tables that only
    grow. `events` is newest first: a row's id is the number of rows from it on. -/
structure Tables (weight : String → String) extends ChainRows where
  indexAddresses    : Index String String weight
  indexTransactions : Index Hash Hash id
  pubkeys           : List PubkeyRow
  events            : List Event
deriving DecidableEq

/-- What `getBlockByIndex` answers: the row joined with its two hashes. -/
structure Block where
  blockIndex        : Int
  blockTime         : Int
  blockHash         : Option Hash
  previousBlockHash : Option Hash
deriving DecidableEq, Repr

namespace ChainRows

/-! ## Section 2: Reading the chain rows -/

/-- `SELECT MAX(block_index)`, -1 on an empty table. -/
def getLastBlockIndex (c : ChainRows) : Int :=
  (c.blocks.map BlockRow.blockIndex).foldr max (-1)

/-- `SELECT MAX(tx_index)`, -1 on an empty table. -/
def getLastTxIndex (c : ChainRows) : Int :=
  (c.transactions.map TransactionRow.txIndex).foldr max (-1)

/-- The stored heights. -/
def heights (c : ChainRows) : List Int := c.blocks.map BlockRow.blockIndex

/-- The tx indexes in use. -/
def txIndexes (c : ChainRows) : List Int := c.transactions.map TransactionRow.txIndex

/-- The tx indexes of one block. -/
def txIndexesOf (c : ChainRows) (blockIndex : Int) : List Int :=
  (c.transactions.filter (fun x => x.blockIndex = blockIndex)).map TransactionRow.txIndex

/-! ## Section 3: Deleting a block's rows -/

/-- The undo row a block recorded for a dispenser. -/
def undoOf (undo : List ExtensionUndoRow) (blockIndex : Int) (d : DispenserRow) :
    Option ExtensionUndoRow :=
  undo.find? (fun u =>
    u.blockIndex = blockIndex ∧ u.txIndex = d.txIndex ∧ u.addressId = d.addressId)

/-- Put one dispenser row back to what an undo row of `blockIndex` recorded. A
    prior mark of the orphaned height itself becomes open. -/
def restoreRow (undo : List ExtensionUndoRow) (blockIndex : Int) (d : DispenserRow) :
    DispenserRow :=
  match undoOf undo blockIndex d with
  | none   => d
  | some u =>
      { d with
        expiration := u.priorExpiration
        expiredBlockIndex :=
          if u.priorExpiredBlockIndex = some u.blockIndex then none
          else u.priorExpiredBlockIndex }

/-- `restoreDispenserExtensions`: undo the extends of `blockIndex` and drop its
    undo rows. -/
def restoreDispenserExtensions (c : ChainRows) (blockIndex : Int) : ChainRows :=
  { c with
    dispensers := c.dispensers.map (restoreRow c.dispenserExtensionUndo blockIndex)
    dispenserExtensionUndo :=
      c.dispenserExtensionUndo.filter (fun u => u.blockIndex ≠ blockIndex) }

/-- Reopen a dispenser that `blockIndex` expired. -/
def clearExpiry (blockIndex : Int) (d : DispenserRow) : DispenserRow :=
  if d.expiredBlockIndex = some blockIndex then { d with expiredBlockIndex := none } else d

/-- `deleteBlockRows`: clear the block's expiry marks, then delete its outputs,
    dispensers and transactions, and the block itself. -/
def deleteBlockRows (c : ChainRows) (blockIndex : Int) : ChainRows :=
  { c with
    transactionOutputs :=
      c.transactionOutputs.filter (fun o => o.txIndex ∉ c.txIndexesOf blockIndex)
    dispensers :=
      (c.dispensers.map (clearExpiry blockIndex)).filter
        (fun d => d.txIndex ∉ c.txIndexesOf blockIndex)
    transactions := c.transactions.filter (fun x => x.blockIndex ≠ blockIndex)
    blocks := c.blocks.filter (fun b => b.blockIndex ≠ blockIndex) }

/-- What `deleteBlockByIndex` does to the chain rows. -/
def deleteBlock (c : ChainRows) (blockIndex : Int) : ChainRows :=
  (c.restoreDispenserExtensions blockIndex).deleteBlockRows blockIndex

end ChainRows

namespace Tables

variable {weight : String → String}

/-- A database that has just been created: the one reserved row is the blank
    address, under id 1. (The blank hash under id 1 is never referenced.) -/
def fresh (weight : String → String) : Tables weight where
  blocks                 := []
  transactions           := []
  transactionOutputs     := []
  dispensers             := []
  dispenserExtensionUndo := []
  indexAddresses         := Index.singleton weight 1 ""
  indexTransactions      := Index.empty id
  pubkeys                := []
  events                 := []

/-! ## Section 4: Blocks -/

def getLastBlockIndex (t : Tables weight) : Int := t.toChainRows.getLastBlockIndex

def getLastTxIndex (t : Tables weight) : Int := t.toChainRows.getLastTxIndex

/-- The row of a block joined with its hashes. -/
def toBlock (hashes : Index Hash Hash id) (b : BlockRow) : Block where
  blockIndex        := b.blockIndex
  blockTime         := b.blockTime
  blockHash         := hashes.valueOf b.blockHashId
  previousBlockHash := hashes.valueOf b.previousBlockHashId

def getBlockByIndex (t : Tables weight) (blockIndex : Int) : Option Block :=
  (t.blocks.find? (fun b => b.blockIndex = blockIndex)).map (toBlock t.indexTransactions)

/-- `createTransaction`: the id of a hash, interning it first if it is new. -/
def createTransaction (t : Tables weight) (hash : Hash) : Nat × Tables weight :=
  let r := t.indexTransactions.create 1 hash
  (r.1, { t with indexTransactions := r.2 })

/-- `createAddress`: the id of an address, 1 for a missing or blank one. -/
def createAddress (t : Tables weight) : Option String → Nat × Tables weight
  | none         => (1, t)
  | some address =>
      if address = "" then (1, t)
      else
        let r := t.indexAddresses.create 0 address
        (r.1, { t with indexAddresses := r.2 })

/-- `insertBlock`; `none` where the primary key refuses the row. -/
def insertBlock (t : Tables weight) (blockIndex blockTime : Int)
    (blockHash previousBlockHash : Hash) : Option (Tables weight) :=
  let r₁ := t.createTransaction blockHash
  let r₂ := r₁.2.createTransaction previousBlockHash
  if blockIndex ∈ t.heights then none
  else some { r₂.2 with blocks := t.blocks ++ [⟨blockIndex, blockTime, r₁.1, r₂.1⟩] }

/-- `insertReorgEvent`: the audit marker, written only for a block whose hash is
    known. -/
def insertReorgEvent (t : Tables weight) (blockIndex : Int) : Option Hash → Tables weight
  | none      => t
  | some hash => { t with events := .reorg [(blockIndex, hash)] :: t.events }

/-- The whole of `deleteBlockByIndex`, as its transaction commits it. -/
def deleteBlockByIndex (t : Tables weight) (blockIndex : Int) (reorgBlockHash : Option Hash) :
    Tables weight :=
  { t with toChainRows := t.toChainRows.deleteBlock blockIndex }.insertReorgEvent
    blockIndex reorgBlockHash

/-! ## Section 5: Markers -/

/-- The REORG rows, newest first. -/
def reorgRows (t : Tables weight) : List (List (Int × Hash)) :=
  t.events.filterMap Event.reorgPayload

/-- The heights the newest `limit` REORG rows name. -/
def reorgHeights (t : Tables weight) (limit : Nat) : List Int :=
  (t.reorgRows.take limit).flatMap (fun deleted => deleted.map Prod.fst)

/-- How many rows carry the code REORG. -/
def reorgRowCount (t : Tables weight) : Nat := t.reorgRows.length

/-- Distinct marked heights above `tip`. -/
def countReorgDeletesAbove (t : Tables weight) (tip : Int) (scanLimit : Nat) : Nat :=
  ((t.reorgHeights scanLimit).filter (fun h => tip < h)).dedup.length

/-- What `readReorgHaltState` answers, as far as the loop uses it. -/
structure HaltState where
  halted         : Bool
  id             : Option Nat
  reason         : Option HaltReason
  unauditedClear : Bool
deriving DecidableEq, Repr

/-- The newest halt or clear row decides; a clear without the audited shape
    reads as a live halt. -/
def readHaltState : List Event → HaltState
  | []                                   => ⟨false, none, none, false⟩
  | .reorgHalt reason :: rest            => ⟨true, some (rest.length + 1), some reason, false⟩
  | .reorgHaltCleared (some _) :: _      => ⟨false, none, none, false⟩
  | .reorgHaltCleared none :: rest       => ⟨true, some (rest.length + 1), none, true⟩
  | .parseError .. :: rest               => readHaltState rest
  | .reorg _ :: rest                     => readHaltState rest

def readReorgHaltState (t : Tables weight) : HaltState := readHaltState t.events

def isReorgHalted (t : Tables weight) : Bool := t.readReorgHaltState.halted

/-- `insertEvent`: append one row. -/
def insertEvent (t : Tables weight) (e : Event) : Tables weight :=
  { t with events := e :: t.events }

end Tables

end XChainDecoder
