import XChainDecoder.Ingest.Rules

/-! # A block pass without faults

    What the pass of one block makes of the tables when every lookup answers and
    every statement runs: a `Draft` is the image of the open transaction with
    the two variables the pass carries along, the transaction counter and the
    capture set. `none` stands for a pass that ends in a rollback on the block's
    own content (a taken key, a row no table accepts), however often it runs.

    `quarantined` is the set of positions the loop has given up on; their
    transactions leave an audit row and consume no index. -/

namespace XChainDecoder

/-! ## Section 1: Reads and writes of a transaction -/

namespace Tables

variable {weight : String → String}

/-- What `capturePubkey` writes during a parse: the key of an address that is
    known already. -/
def exposePubkey (t : Tables weight) (source pubkey : Option String) : Tables weight :=
  match source.filter (!·.isEmpty), pubkey.filter (!·.isEmpty) with
  | some source, some pubkey =>
      match t.indexAddresses.idOf source with
      | none    => t
      | some id => t.insertPubkey id pubkey
  | _, _ => t

/-- One output row of a transaction. -/
def insertOutput (t : Tables weight) (txIndex : Int) (o : Output) : Option (Tables weight) :=
  t.insertTransactionOutput ⟨txIndex, o.vout, o.destinationAddress, o.amount⟩

def insertOutputs (txIndex : Int) : List Output → Tables weight → Option (Tables weight)
  | [],      t => some t
  | o :: os, t => (t.insertOutput txIndex o).bind (insertOutputs txIndex os)

/-- An open dispenser that a source operates or created. -/
def openFor (sourceId : Option Nat) (d : DispenserRow) : Bool :=
  sourceId.isSome && (some d.addressId = sourceId || d.sourceAddressId = sourceId) &&
    d.expiredBlockIndex = none

/-- The open dispensers of a source that name an oracle, with its address. -/
def openOracles (t : Tables weight) (source : String) : List (DispenserRow × String) :=
  (t.dispensers.filter (openFor (t.indexAddresses.idOf source))).filterMap (fun d =>
    (d.oracleAddressId.bind t.indexAddresses.valueOf).map (fun oracle => (d, oracle)))

/-- `ORDER BY (address_id = ?) DESC, tx_index DESC`; a tie is taken in row order. -/
def outranks (sourceId : Option Nat) (d e : DispenserRow) : Bool :=
  if some d.addressId = sourceId then some e.addressId ≠ sourceId || e.txIndex < d.txIndex
  else some e.addressId ≠ sourceId && e.txIndex < d.txIndex

/-- The first of the top-ranked rows. -/
def topRanked (sourceId : Option Nat) : List (DispenserRow × String) → Option (DispenserRow × String)
  | []        => none
  | r :: rest =>
      match topRanked sourceId rest with
      | none   => some r
      | some s => if outranks sourceId s.1 r.1 then some s else some r

/-- `resolveOracleFeeAddresses`. -/
def oracleFeeAddresses (t : Tables weight) (source : Option String) (request : OracleRequest) :
    List String :=
  match request, source.filter (!·.isEmpty) with
  | .none, _                => []
  | .named address, _       => [address]
  | .everyOpen, some source => ((t.openOracles source).map Prod.snd).filter (!·.isEmpty)
  | .topOpen, some source   =>
      ((topRanked (t.indexAddresses.idOf source) (t.openOracles source)).map Prod.snd).toList.filter
        (!·.isEmpty)
  | _, none                 => []

/-- Intern the addresses of a list of creates. -/
def createAddresses (addresses : List String) (t : Tables weight) : Tables weight :=
  addresses.foldl (fun t address => (t.createAddress (some address)).2) t

/-- Whether the registrations are keyed by the interned address. -/
def collapsesById (rules : Rules) (time : Int) (candidates : List DispenserCreate) : Bool :=
  gateActive rules.addressIdCollapseActivation time &&
    2 ≤ (XChainDecoder.createAddresses candidates).dedup.length

/-- `collapseDispenserRegistrations`: the registrations, and the tables with the
    addresses it interned on the way. -/
def collapseDispenserRegistrations (rules : Rules) (time : Int) (candidates : List DispenserCreate)
    (t : Tables weight) : List DispenserCreate × Tables weight :=
  if collapsesById rules time candidates then
    let t' := t.createAddresses (XChainDecoder.createAddresses candidates)
    (collapseRegistrationsByKey t'.indexAddresses.idOf candidates, t')
  else (collapseRegistrationsByKey id candidates, t)

/-- The row of a registration. -/
def registerDispenser (txIndex : Int) (c : DispenserCreate) (t : Tables weight) : Tables weight :=
  t.insertDispenser ⟨txIndex, c.address, c.sourceAddress, c.oracleAddress, c.expiration⟩

/-- `extendEditedDispenser`: the pre-image first, then the extend. -/
def extendEditedDispenser (blockIndex : Int) (edit : String × Int) (t : Tables weight) :
    Tables weight :=
  (t.recordDispenserExtensionUndo edit.1 blockIndex).extendOpenDispenserExpirationBySource
    edit.1 edit.2 blockIndex

/-- The block times below a height, newest first, as far as they are stored. -/
def blockTimesBelow (t : Tables weight) : Nat → Int → List Int
  | 0,        _      => []
  | span + 1, height =>
      if height < 0 then []
      else
        match t.getBlockByIndex height with
        | none   => []
        | some b => b.blockTime :: blockTimesBelow t span (height - 1)

end Tables

/-! ## Section 2: The draft of a block -/

/-- A block as its pass sees it; `time` is the protocol time. -/
structure BlockHead where
  blockIndex : Int
  blockHash  : Hash
  time       : Int
deriving DecidableEq, Repr

structure Draft (weight : String → String) where
  tables        : Tables weight
  lastTxIndex   : Int
  openAddresses : List String
deriving DecidableEq

def TX_PARSE_MAX_RETRIES : Nat := 3

def insertQuarantineError : String := "deterministic INSERT failure (quarantined after 3 block retries)"

/-- The audit row of a transaction that is skipped for good. -/
def BlockHead.parseError (head : BlockHead) (position : Nat) (hash : Option Hash)
    (error : String) : Event :=
  .parseError head.time head.blockIndex position hash error

/-- The row of a parsed transaction. -/
def newTransaction (head : BlockHead) (index : Int) (hash : Hash) (r : ParseResult)
    (stored : StoredRecord) : NewTransaction :=
  ⟨index, hash, head.blockIndex, r.source, r.sourcePubkey, r.destination, stored.data,
    stored.rawData⟩

/-- The edits among the commands of a transaction. -/
def dispenserEdits (rules : Rules) (commands : List String) (source : Option String) (time : Int) :
    List (String × Int) :=
  commands.filterMap (fun command => rules.dispenserEdit command source time)

/-- The open addresses a registration adds. -/
def registeredAddresses (registrations : List DispenserCreate) : List String :=
  createAddresses registrations

namespace Draft

variable {weight : String → String}

def write (d : Draft weight) (f : Tables weight → Tables weight) : Draft weight :=
  { d with tables := f d.tables }

/-- The capture decision: the payment outputs a transaction is stored with. -/
def payments (rules : Rules) (head : BlockHead) (r : ParseResult) (commands : List String)
    (t : Tables weight) : List Output :=
  capturedPayments rules commands
    (commands.flatMap (fun command =>
      t.oracleFeeAddresses r.source (rules.oracleRequest command head.time))) r.paymentOutputs

/-- The registrations of a transaction, and the tables once they are keyed. -/
def registrations (rules : Rules) (head : BlockHead) (r : ParseResult) (commands : List String)
    (t : Tables weight) : List DispenserCreate × Tables weight :=
  t.collapseDispenserRegistrations rules head.time
    (rules.dispenserCreates commands r.source head.time)

/-- `persistTransaction`: the row, its outputs, its dispensers, its edits. -/
def persistTransaction (rules : Rules) (head : BlockHead) (hash : Hash) (r : ParseResult)
    (stored : StoredRecord) (d : Draft weight) : Option (Draft weight) := do
  let commands := rules.captureCommands stored.data head.time
  let t ← d.tables.insertTransaction (newTransaction head d.lastTxIndex hash r stored)
  let t ← Tables.insertOutputs d.lastTxIndex r.dispenseOutputs t
  let t ← Tables.insertOutputs d.lastTxIndex (payments rules head r commands t) t
  let keyed := registrations rules head r commands t
  let t := keyed.1.foldl (fun t c => t.registerDispenser d.lastTxIndex c) keyed.2
  let t := (dispenserEdits rules commands r.source head.time).foldl
    (fun t edit => t.extendEditedDispenser head.blockIndex edit) t
  return { d with tables := t, openAddresses := d.openAddresses ++ registeredAddresses keyed.1 }

/-- A parsed transaction: worth an index, worth a row, or neither. -/
def storeResult (rules : Rules) (head : BlockHead) (hash : Hash) (r : ParseResult)
    (d : Draft weight) : Option (Draft weight) :=
  if hasStorableContent r then
    let d := { d with lastTxIndex := d.lastTxIndex + 1 }
    let stored := buildStoredActionRecord rules r
    if stored.skip then some d
    else if rules.rejectsRow hash r.source r.destination stored.data stored.rawData then none
    else d.persistTransaction rules head hash r stored
  else some d

/-- `ingestTransaction`. -/
def ingestTransaction (rules : Rules) (head : BlockHead) (quarantined : Bool) (position : Nat)
    (tx : RawTransaction) (d : Draft weight) : Option (Draft weight) :=
  if quarantined then
    some (d.write (Tables.insertEvent · (head.parseError position tx.id insertQuarantineError)))
  else
    match tx.id with
    | none =>
        some (d.write (Tables.insertEvent · (head.parseError position none (rules.idError tx))))
    | some hash =>
        match rules.parseTransaction tx (· ∈ d.openAddresses) head.blockIndex with
        | .nothing => some d
        | .throws error exposed =>
            some ((d.write (Tables.exposePubkey · (exposed.map Prod.fst) (exposed.map Prod.snd))).write
              (Tables.insertEvent · (head.parseError position (some hash) error)))
        | .result r =>
            (d.write (Tables.exposePubkey · r.source r.sourcePubkey)).storeResult rules head hash r

/-- The transactions of a block, from a position on. -/
def ingestTransactions (rules : Rules) (head : BlockHead) (quarantined : Nat → Bool) :
    Nat → List RawTransaction → Draft weight → Option (Draft weight)
  | _,        [],        d => some d
  | position, tx :: txs, d =>
      (d.ingestTransaction rules head (quarantined position) position tx).bind
        (ingestTransactions rules head quarantined (position + 1) txs)

/-- The times a block is ingested under. -/
def timesOf (rules : Rules) (blockIndex : Int) (block : RawBlock) (t : Tables weight) :
    BlockTimeContext :=
  blockTimeContext rules block.timestamp
    (t.blockTimesBelow (historySpan rules block.timestamp) (blockIndex - 1))

/-- The draft before the first transaction: the block row, the expiry of a
    network that expires at the start, and the capture set. -/
def openBlock (rules : Rules) (blockIndex : Int) (hash : Hash) (block : RawBlock)
    (t : Tables weight) (lastTxIndex : Int) : Option (Draft weight) := do
  let times := timesOf rules blockIndex block t
  let t ← t.insertBlock blockIndex times.rawBlockTime hash block.prevHash
  let t := if gateActive rules.expiryRealignActivation times.protocolBlockTime then t
    else t.deleteOpenDispensers blockIndex times.protocolBlockTime
  return ⟨t, lastTxIndex, t.getAllOpenDispenserAddresses
    (cancelGraceFloor rules times.protocolBlockTime times.parentProtocolTime)⟩

/-- The expiry of a network that expires at the end. -/
def closeBlock (rules : Rules) (blockIndex : Int) (time : Int) (d : Draft weight) : Draft weight :=
  if gateActive rules.expiryRealignActivation time then
    d.write (Tables.deleteOpenDispensers · blockIndex time)
  else d

/-- The pass of one block. -/
def ingestBlock (rules : Rules) (quarantined : Nat → Bool) (blockIndex : Int) (hash : Hash)
    (block : RawBlock) (t : Tables weight) (lastTxIndex : Int) : Option (Draft weight) := do
  let time := (timesOf rules blockIndex block t).protocolBlockTime
  let d ← openBlock rules blockIndex hash block t lastTxIndex
  let d ← d.ingestTransactions rules ⟨blockIndex, hash, time⟩ quarantined 0 block.transactions
  return d.closeBlock rules blockIndex time

end Draft

end XChainDecoder
