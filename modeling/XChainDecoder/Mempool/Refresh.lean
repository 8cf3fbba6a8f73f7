import Mathlib.Data.List.Nodup
import XChainDecoder.Hash
import XChainDecoder.Lib.Slices
import XChainDecoder.Capture.Action

/-! # A refresh of the pending transactions

    Once per poll the node's mempool is compared with the stored rows: rows of
    transactions it no longer lists are deleted, and what it lists and is not stored yet
    is fetched, parsed and stored. The comparison is made by the database, against a
    temporary table the listed ids are written to in chunks; the fetch goes in batches.

    Every query may fail, before it was carried out or after; so may every batch. -/

namespace XChainDecoder.Mempool

open Parse (Library Network BlockTransaction ParsedTransaction Trace parseTransaction)
open Capture (admitMempoolAction)

/-! ## Section 1: The tables -/

def MEMPOOL_BATCH_SIZE : ℕ := 1000
def INSERT_CHUNK : ℕ := 5000

/-- What a cycle runs with. -/
structure Decoder where
  lib   : Library
  net   : Network
  rules : Rules
  /-- what the collation of `tx_hash` compares texts by; ids it tells apart -/
  weight       : String → String
  weight_exact : ∀ a b : Hash, weight a.val = weight b.val → a = b
  localeCompare : String → String → Int
  getId         : Wire.Transaction → Hash
  lastProcessedBlockIndex : Int

/-- A row of `mempool_transactions`. -/
structure PendingRow where
  tx_hash     : Hash
  source      : Option String
  destination : Option String
  amount      : Option ℕ
  fee         : ℕ
  data        : String
  raw_data    : Option (List UInt8)
deriving DecidableEq

/-- `mempool_transactions`, with its unique index. -/
structure PendingTable (weight : String → String) where
  rows   : List PendingRow
  unique : (rows.map (fun row => weight row.tx_hash.val)).Nodup

namespace PendingTable

variable {weight : String → String}

def txids (table : PendingTable weight) : List Hash := table.rows.map PendingRow.tx_hash

theorem nodup_txids (table : PendingTable weight) : table.txids.Nodup := by
  have hweights := table.unique
  rw [show (fun row : PendingRow => weight row.tx_hash.val) =
    (fun txid : Hash => weight txid.val) ∘ PendingRow.tx_hash from rfl, ← List.map_map] at hweights
  exact List.Nodup.of_map _ hweights

/-- `DELETE m ... LEFT JOIN snapshot s ON s.tx_hash = m.tx_hash WHERE s.tx_hash IS NULL`. -/
def deleteAbsent (table : PendingTable weight) (snapshot : List Hash) : PendingTable weight where
  rows := table.rows.filter (fun row =>
    snapshot.any (fun txid => weight txid.val == weight row.tx_hash.val))
  unique := table.unique.sublist (List.filter_sublist.map _)

/-- `SELECT s.tx_hash ... JOIN mempool_transactions m ON m.tx_hash = s.tx_hash`. -/
def present (table : PendingTable weight) (snapshot : List Hash) : List Hash :=
  snapshot.flatMap (fun txid =>
    (table.rows.filter (fun row => weight row.tx_hash.val == weight txid.val)).map (fun _ => txid))

/-- The row that the unique index refuses another one beside. -/
def holds (table : PendingTable weight) (txid : Hash) : Bool :=
  table.rows.any (fun row => weight row.tx_hash.val == weight txid.val)

/-- `INSERT INTO mempool_transactions`, `none` for error 1062. -/
def insert (table : PendingTable weight) (row : PendingRow) : Option (PendingTable weight) :=
  if h : table.holds row.tx_hash = true then none
  else some {
    rows := table.rows ++ [row]
    unique := by
      rw [List.map_append, List.nodup_append]
      refine ⟨table.unique, List.nodup_singleton _, ?_⟩
      intro a ha b hb hab
      obtain ⟨stored, hstored, rfl⟩ := List.mem_map.mp ha
      rw [List.map_cons, List.map_nil, List.mem_singleton] at hb
      refine h (List.any_eq_true.mpr ⟨stored, hstored, ?_⟩)
      rw [hab, hb]
      exact beq_self_eq_true _ }

end PendingTable

/-! ## Section 2: The surroundings -/

/-- What becomes of a query. -/
inductive QueryAnswer where
  | answers
  /-- it fails without a trace -/
  | failed (error : String)
  /-- it is carried out, and the answer is lost -/
  | lost (error : String)
deriving DecidableEq, Repr

def QueryAnswer.carriedOut : QueryAnswer → Bool
  | failed _ => false
  | _        => true

/-- What the node and the database answer in a cycle: a batch, a call and an INSERT each
    by its number. -/
structure Outside where
  /-- `none` stands for an answer that is not an array -/
  getRawMempool      : Except String (Option (List Hash))
  getRawTransactions : ℕ → List Hash → Except String (List (Option (List UInt8)))
  /-- a connection, with the snapshot it may still hold -/
  connection         : ℕ → Except String (Option (List Hash))
  /-- the queries of the comparison -/
  answer             : ℕ → QueryAnswer
  insertAnswer       : ℕ → QueryAnswer
  /-- what `loadMempoolOpenDispenserAddresses` comes to -/
  openDispenserAddresses : String → Bool
  /-- what the parse of a transaction is answered -/
  parse              : Hash → Parse.Surroundings

/-- A batch as it was asked for, and the answer. -/
structure Fetch where
  txids  : List Hash
  answer : Except String (List (Option (List UInt8)))

/-- An INSERT as it was sent, and what became of it. -/
structure Sent where
  txid   : Hash
  answer : QueryAnswer

/-- The state; `fetched` and `sent` are the logs of the node and of the database. -/
structure State (d : Decoder) where
  table              : PendingTable d.weight
  /-- the temporary table of the connection at hand -/
  snapshot           : Option (List Hash)
  mempoolBusy        : Bool
  nodeMempoolTxCount : ℕ
  calls              : ℕ
  fetched            : List Fetch
  sent               : List Sent

abbrev Steps (d : Decoder) (α : Type) : Type := Proc Outside (State d) String α

variable {d : Decoder}

def State.asked (s : State d) : State d := { s with calls := s.calls + 1 }

def State.sending (s : State d) (txid : Hash) (answer : QueryAnswer) : State d :=
  { s with sent := s.sent ++ [⟨txid, answer⟩] }

def State.fetching (s : State d) (fetch : Fetch) : State d :=
  { s with fetched := s.fetched ++ [fetch] }

/-- A statement, which reads and writes the state where it is carried out. -/
def carry {α : Type} (answer : QueryAnswer) (run : State d → α × State d) : Steps d α :=
  fun _ s =>
    match answer with
    | .answers      => (.ok (run s).1, (run s).2)
    | .failed error => (.error (.thrown error), s)
    | .lost error   => (.error (.thrown error), (run s).2)

/-- A query of the comparison. -/
def query {α : Type} (run : State d → α × State d) : Steps d α := fun env s =>
  carry (env.answer s.calls) run env s.asked

def execute (run : State d → State d) : Steps d PUnit := query (fun s => (⟨⟩, run s))

/-- `getConnection`: any connection of the pool. -/
def getConnection : Steps d PUnit := fun env s =>
  match env.connection s.calls with
  | .error error => (.error (.thrown error), s.asked)
  | .ok leftover => (.ok ⟨⟩, { s.asked with snapshot := leftover })

/-! ## Section 3: The comparison -/

/-- `dedupNodeMempool`. -/
def dedupNodeMempool (d : Decoder) (rawMempoolUnordered : List Hash) : List Hash :=
  rawMempoolUnordered.eraseDups.mergeSort
    (fun a b => decide (d.localeCompare b.val a.val ≤ 0))

/-- `seedMempoolSnapshot`; the index of the temporary table is not unique. -/
def seedMempoolSnapshot (txidList : List Hash) (chunkSize : ℕ) : Steps d PUnit := do
  execute (fun s => { s with snapshot := some (s.snapshot.getD []) })
  execute (fun s => { s with snapshot := s.snapshot.map (fun _ => []) })
  if txidList.length > 0 then
    Slices.eachSlice chunkSize txidList
      (fun chunk _ => execute (fun s => { s with snapshot := s.snapshot.map (· ++ chunk) })) ⟨⟩
  else pure ⟨⟩

/-- Which ids of the snapshot are stored; not asked where there is nothing to compare. -/
def selectPresent (txidList : List Hash) : Steps d (List Hash) :=
  if txidList.length > 0 then query (fun s => (s.table.present (s.snapshot.getD []), s))
  else pure []

/-- `reconcileMempoolSnapshot`: how many rows were deleted, and what `txidList` is after. -/
def reconcileMempoolSnapshot (txidList : List Hash) : Steps d (ℕ × List Hash) := do
  let transactionsDeleted ← query (fun s =>
    (s.table.rows.length - (s.table.deleteAbsent (s.snapshot.getD [])).rows.length,
      { s with table := s.table.deleteAbsent (s.snapshot.getD []) }))
  let presentRows ← selectPresent txidList
  if presentRows.length > 0 then
    pure (transactionsDeleted, txidList.filter (fun h => !presentRows.contains h))
  else pure (transactionsDeleted, txidList)

/-- `dropMempoolSnapshot`: a failure is only noted. -/
def dropMempoolSnapshot : Steps d PUnit :=
  tryCatch (execute (fun s => { s with snapshot := none })) (fun _ => pure ⟨⟩)

/-- `deleteAndCompareTxsNotInList`; the snapshot is dropped on either way out. -/
def deleteAndCompareTxsNotInList (txidList : List Hash) : Steps d (ℕ × List Hash) := do
  getConnection
  let compared ← tryCatch
    (do
      seedMempoolSnapshot txidList INSERT_CHUNK
      reconcileMempoolSnapshot txidList)
    (fun err => do
      dropMempoolSnapshot
      throw err)
  dropMempoolSnapshot
  pure compared

/-! ## Section 4: The batches -/

/-- `decodeMempoolTransaction`: nothing where the bytes do not decode, and nothing for a
    transaction without inputs. -/
def decodeMempoolTransaction (d : Decoder) (nextTxHex : List UInt8) : Option Wire.Transaction :=
  match d.lib.transactionFromHex nextTxHex with
  | .error _ => none
  | .ok tx   => if tx.ins.length = 0 then none else some tx

/-- `parseMempoolTransaction`: nothing where the parse throws. -/
def parseMempoolTransaction (d : Decoder) (env : Outside) (nextTx : Wire.Transaction)
    (txid : Hash) : Option ParsedTransaction :=
  match (parseTransaction d.lib d.net env.openDispenserAddresses
    (some (d.lastProcessedBlockIndex + 1)) ⟨nextTx, txid.val⟩ (env.parse txid).mempoolLane
    Trace.start).1 with
  | .ok parsed => parsed
  | .error _   => none

/-- What `storeMempoolTransaction` has parsed where it gets as far as the row. -/
def readMempoolTransaction (d : Decoder) (env : Outside) (nodeTxid : Option Hash)
    (nextTxHex : List UInt8) : Option (Hash × ParseResult) :=
  match decodeMempoolTransaction d nextTxHex, nodeTxid with
  | some nextTx, some txid =>
      if d.getId nextTx ≠ txid then none
      else (parseMempoolTransaction d env nextTx txid).map
        (fun parsed => (txid, parsed.toParseResult))
  | _, _ => none

/-- The row of a parsed transaction; what is skipped is stored blanked. -/
def pendingRow (d : Decoder) (txid : Hash) (r : ParseResult) : PendingRow :=
  let stored := admitMempoolAction d.rules r
  ⟨txid, r.source, r.destination, none, 0, if stored.skip then "" else stored.data,
    if stored.skip then none else stored.rawData⟩

/-- What counts as valid in the log line of the cycle. -/
def countsAsValid (d : Decoder) (r : ParseResult) : Bool :=
  let unattributed := !r.data.isEmpty && !hasStorableContent r
  !(admitMempoolAction d.rules r).skip && !unattributed && !r.data.isEmpty

/-- The INSERT of a row: `true`, or `DUPLICATED_TRANSACTION`, which counts as true. -/
def putRow (row : PendingRow) (s : State d) : Bool × State d :=
  match s.table.insert row with
  | some table => (true, { s with table := table })
  | none       => (true, s)

/-- The INSERT is sent, and noted with what becomes of it. -/
def insertRow (row : PendingRow) : Steps d Bool := fun env s =>
  carry (env.insertAnswer s.sent.length) (putRow row) env
    (s.sending row.tx_hash (env.insertAnswer s.sent.length))

/-- `insertMempoolTransaction`: false for any other error. -/
def insertMempoolTransaction (row : PendingRow) : Steps d Bool := do
  getConnection
  tryCatch (insertRow row) (fun _ => pure false)

/-- `storeMempoolTransaction`. -/
def storeMempoolTransaction (nodeTxid : Option Hash) (nextTxHex : List UInt8) :
    Steps d Bool := do
  let env ← read
  match readMempoolTransaction d env nodeTxid nextTxHex with
  | none           => pure false
  | some (txid, r) => do
      let inserted ← insertMempoolTransaction (pendingRow d txid r)
      pure (inserted && countsAsValid d r)

/-- The answers of a batch in request order, from `nextTxHexIndex` on. -/
def storeAnswers (nextRawMempoolChunk : List Hash) :
    ℕ → List (Option (List UInt8)) → ℕ → Steps d ℕ
  | _, [], validTransactionsCount => pure validTransactionsCount
  | nextTxHexIndex, none :: nextTxsHex, validTransactionsCount =>
      storeAnswers nextRawMempoolChunk (nextTxHexIndex + 1) nextTxsHex validTransactionsCount
  | nextTxHexIndex, some nextTxHex :: nextTxsHex, validTransactionsCount => do
      let valid ← storeMempoolTransaction nextRawMempoolChunk[nextTxHexIndex]? nextTxHex
      storeAnswers nextRawMempoolChunk (nextTxHexIndex + 1) nextTxsHex
        (if valid then validTransactionsCount + 1 else validTransactionsCount)

/-- `getRawTransactions`, noted with its answer. -/
def getRawTransactions (txIdArray : List Hash) :
    Steps d (Except String (List (Option (List UInt8)))) := fun env s =>
  (.ok (env.getRawTransactions s.fetched.length txIdArray),
    s.fetching ⟨txIdArray, env.getRawTransactions s.fetched.length txIdArray⟩)

/-- The round of `storeMempoolBatches`: a batch that fails is skipped. -/
def storeMempoolBatch (nextRawMempoolChunk : List Hash) (validTransactionsCount : ℕ) :
    Steps d ℕ := do
  match ← getRawTransactions nextRawMempoolChunk with
  | .error _       => pure validTransactionsCount
  | .ok nextTxsHex => storeAnswers nextRawMempoolChunk 0 nextTxsHex validTransactionsCount

/-- `storeMempoolBatches`. -/
def storeMempoolBatches (rawMempool : List Hash) : Steps d ℕ :=
  Slices.eachSlice MEMPOOL_BATCH_SIZE rawMempool storeMempoolBatch 0

/-! ## Section 5: The cycle -/

/-- The counts of the log line. -/
structure Report where
  inMempool : ℕ
  new       : ℕ
  valid     : ℕ
  less      : ℕ
deriving DecidableEq, Repr

/-- `refreshMempoolRows`. -/
def refreshMempoolRows (rawMempool : List Hash) (nodeMempoolCount : ℕ) : Steps d Report := do
  let (transactionsDeleted, newArrivals) ← deleteAndCompareTxsNotInList rawMempool
  let validTransactionsCount ← storeMempoolBatches newArrivals
  pure ⟨nodeMempoolCount, newArrivals.length, validTransactionsCount, transactionsDeleted⟩

/-- The refresh under the busy flag, which is cleared on either way out. -/
def refreshAndRelease (rawMempool : List Hash) : Steps d Report := do
  let report ← tryCatch (refreshMempoolRows rawMempool rawMempool.length)
    (fun err => do
      modify (fun s => { s with mempoolBusy := false })
      throw err)
  modify (fun s => { s with mempoolBusy := false })
  pure report

/-- `updateMempool`: no report where the cycle is not run. -/
def updateMempool : Steps d (Option Report) := do
  let s ← get
  if s.mempoolBusy then pure none
  else do
    modify (fun s => { s with mempoolBusy := true })
    let env ← read
    match env.getRawMempool with
    | .ok (some rawMempoolUnordered) => do
        let rawMempool := dedupNodeMempool d rawMempoolUnordered
        modify (fun s => { s with nodeMempoolTxCount := rawMempool.length })
        let report ← refreshAndRelease rawMempool
        pure (some report)
    | _ => do
        modify (fun s => { s with mempoolBusy := false })
        pure none

end XChainDecoder.Mempool
