import XChainDecoder.Ingest.Draft

/-! # A store without numbers

    What the decoder stores, said without its lookup tables: every row names its
    addresses and hashes themselves, and a missing address is the blank one. The pass
    of a block over such a store is the purpose of the decoder's pass: it interns
    nothing, compares addresses as they are spelled, and keeps no audit rows.

    `Tables.named` reads the tables of the decoder as such a store. -/

namespace XChainDecoder

/-! ## Section 1: Rows -/

structure NamedTransaction where
  txIndex     : Int
  txHash      : Option Hash
  blockIndex  : Int
  source      : String
  destination : String
  data        : String
  rawData     : Option (List UInt8)
deriving DecidableEq, Repr

structure NamedOutput where
  txIndex     : Int
  vout        : Nat
  destination : String
  amount      : Int
deriving DecidableEq, Repr

structure NamedDispenser where
  txIndex           : Int
  address           : String
  expiration        : Int
  oracle            : Option String
  source            : Option String
  /-- `none` while open, else the height that expired it -/
  expiredBlockIndex : Option Int
deriving DecidableEq, Repr

structure NamedUndo where
  blockIndex             : Int
  txIndex                : Int
  address                : String
  priorExpiration        : Int
  priorExpiredBlockIndex : Option Int
deriving DecidableEq, Repr

@[ext] structure Named where
  blocks                 : List Block
  transactions           : List NamedTransaction
  transactionOutputs     : List NamedOutput
  dispensers             : List NamedDispenser
  dispenserExtensionUndo : List NamedUndo
deriving DecidableEq, Repr

namespace Named

def heights (s : Named) : List Int := s.blocks.map Block.blockIndex

def txIndexes (s : Named) : List Int := s.transactions.map NamedTransaction.txIndex

def getBlockByIndex (s : Named) (blockIndex : Int) : Option Block :=
  s.blocks.find? (fun b => b.blockIndex = blockIndex)

/-! ## Section 2: Statements -/

def insertBlock (s : Named) (blockIndex blockTime : Int) (blockHash previousBlockHash : Hash) :
    Option Named :=
  if blockIndex ∈ s.heights then none
  else some { s with blocks :=
    s.blocks ++ [⟨blockIndex, blockTime, some blockHash, some previousBlockHash⟩] }

def insertTransaction (s : Named) (tx : NewTransaction) : Option Named :=
  if tx.index ∈ s.txIndexes ∨ some tx.hash ∈ s.transactions.map NamedTransaction.txHash then none
  else some { s with transactions := s.transactions ++ [⟨tx.index, some tx.hash, tx.blockIndex,
    tx.source.getD "", tx.destination.getD "", tx.data, tx.rawData⟩] }

def insertOutput (s : Named) (txIndex : Int) (o : Output) : Option Named :=
  if ∃ r ∈ s.transactionOutputs, r.txIndex = txIndex ∧ r.vout = o.vout then none
  else some { s with transactionOutputs :=
    s.transactionOutputs ++ [⟨txIndex, o.vout, o.destinationAddress.getD "", o.amount⟩] }

def insertOutputs (txIndex : Int) : List Output → Named → Option Named
  | [],      s => some s
  | o :: os, s => (s.insertOutput txIndex o).bind (insertOutputs txIndex os)

/-- An address worth a column of its own. -/
def present (a : Option String) : Option String :=
  if a.getD "" = "" then none else a

/-- One dispenser for each transaction and address; the source of a delegated one. -/
def registerDispenser (txIndex : Int) (c : DispenserCreate) (s : Named) : Named :=
  if (txIndex, c.address.getD "") ∈ s.dispensers.map (fun d => (d.txIndex, d.address)) then s
  else { s with dispensers := s.dispensers ++ [⟨txIndex, c.address.getD "", c.expiration,
    present c.oracleAddress,
    present (if c.sourceAddress = c.address then none else c.sourceAddress), none⟩] }

/-- The source operates the dispenser or created it. -/
def operates (source : String) (d : NamedDispenser) : Bool :=
  d.address = source || d.source = some source

def extendable (source : String) (blockIndex : Int) (d : NamedDispenser) : Bool :=
  operates source d && (d.expiredBlockIndex = none || d.expiredBlockIndex = some blockIndex)

def undoRow (blockIndex : Int) (d : NamedDispenser) : NamedUndo :=
  ⟨blockIndex, d.txIndex, d.address, d.expiration, d.expiredBlockIndex⟩

def hasUndo (undo : List NamedUndo) (u : NamedUndo) : Bool :=
  undo.any (fun v => v.blockIndex = u.blockIndex ∧ v.txIndex = u.txIndex ∧ v.address = u.address)

def extendRow (newExpiration blockIndex : Int) (d : NamedDispenser) : NamedDispenser :=
  { d with
    expiration := max d.expiration newExpiration
    expiredBlockIndex := if d.expiredBlockIndex = some blockIndex then none else d.expiredBlockIndex }

/-- The pre-images first, then the extend. -/
def extendEditedDispenser (blockIndex : Int) (edit : String × Int) (s : Named) : Named :=
  { s with
    dispenserExtensionUndo := s.dispenserExtensionUndo ++
      ((s.dispensers.filter (extendable edit.1 blockIndex)).map (undoRow blockIndex)).filter
        (fun u => !hasUndo s.dispenserExtensionUndo u)
    dispensers := s.dispensers.map (fun d =>
      if extendable edit.1 blockIndex d then extendRow edit.2 blockIndex d else d) }

def expireRow (blockIndex minExpiration : Int) (d : NamedDispenser) : NamedDispenser :=
  if d.expiration < minExpiration ∧ d.expiredBlockIndex = none
  then { d with expiredBlockIndex := some blockIndex } else d

def deleteOpenDispensers (s : Named) (blockIndex minExpiration : Int) : Named :=
  { s with dispensers := s.dispensers.map (expireRow blockIndex minExpiration) }

/-! ## Section 3: Reads -/

def blockTimeAt (s : Named) (blockIndex : Int) : Option Int :=
  (s.blocks.find? (fun b => b.blockIndex = blockIndex)).map Block.blockTime

def captures (s : Named) (graceFloor : Option Int) (d : NamedDispenser) : Bool :=
  match graceFloor with
  | none       => d.expiredBlockIndex = none
  | some floor =>
      d.expiredBlockIndex = none ||
        (d.expiredBlockIndex.bind s.blockTimeAt).any (fun time => floor ≤ time) ||
        floor ≤ d.expiration

def getAllOpenDispenserAddresses (s : Named) (graceFloor : Option Int) : List String :=
  (s.dispensers.filter (s.captures graceFloor)).map NamedDispenser.address

/-- The open dispensers of a source that name an oracle, with its address. -/
def openOracles (s : Named) (source : String) : List (NamedDispenser × String) :=
  (s.dispensers.filter (fun d => operates source d && d.expiredBlockIndex = none)).filterMap
    (fun d => d.oracle.map (fun oracle => (d, oracle)))

def outranks (source : String) (d e : NamedDispenser) : Bool :=
  if d.address = source then e.address ≠ source || e.txIndex < d.txIndex
  else e.address ≠ source && e.txIndex < d.txIndex

def topRanked (source : String) : List (NamedDispenser × String) → Option (NamedDispenser × String)
  | []        => none
  | r :: rest =>
      match topRanked source rest with
      | none   => some r
      | some s => if outranks source s.1 r.1 then some s else some r

def oracleFeeAddresses (s : Named) (source : Option String) (request : OracleRequest) :
    List String :=
  match request, source.filter (!·.isEmpty) with
  | .none, _                => []
  | .named address, _       => [address]
  | .everyOpen, some source => ((s.openOracles source).map Prod.snd).filter (!·.isEmpty)
  | .topOpen, some source   =>
      ((topRanked source (s.openOracles source)).map Prod.snd).toList.filter (!·.isEmpty)
  | _, none                 => []

def blockTimesBelow (s : Named) : Nat → Int → List Int
  | 0,        _      => []
  | span + 1, height =>
      if height < 0 then []
      else
        match s.getBlockByIndex height with
        | none   => []
        | some b => b.blockTime :: blockTimesBelow s span (height - 1)

/-! ## Section 4: Deleting a block, and the purge -/

def txIndexesOf (s : Named) (blockIndex : Int) : List Int :=
  (s.transactions.filter (fun x => x.blockIndex = blockIndex)).map NamedTransaction.txIndex

def undoOf (undo : List NamedUndo) (blockIndex : Int) (d : NamedDispenser) : Option NamedUndo :=
  undo.find? (fun u => u.blockIndex = blockIndex ∧ u.txIndex = d.txIndex ∧ u.address = d.address)

def restoreRow (undo : List NamedUndo) (blockIndex : Int) (d : NamedDispenser) : NamedDispenser :=
  match undoOf undo blockIndex d with
  | none   => d
  | some u =>
      { d with
        expiration := u.priorExpiration
        expiredBlockIndex :=
          if u.priorExpiredBlockIndex = some u.blockIndex then none
          else u.priorExpiredBlockIndex }

def clearExpiry (blockIndex : Int) (d : NamedDispenser) : NamedDispenser :=
  if d.expiredBlockIndex = some blockIndex then { d with expiredBlockIndex := none } else d

/-- Undo the extends of the block, reopen what it expired, delete what it added. -/
def deleteBlock (s : Named) (blockIndex : Int) : Named where
  blocks             := s.blocks.filter (fun b => b.blockIndex ≠ blockIndex)
  transactions       := s.transactions.filter (fun x => x.blockIndex ≠ blockIndex)
  transactionOutputs :=
    s.transactionOutputs.filter (fun o => o.txIndex ∉ s.txIndexesOf blockIndex)
  dispensers         :=
    (s.dispensers.map (fun d =>
      clearExpiry blockIndex (restoreRow s.dispenserExtensionUndo blockIndex d))).filter
        (fun d => d.txIndex ∉ s.txIndexesOf blockIndex)
  dispenserExtensionUndo :=
    s.dispenserExtensionUndo.filter (fun u => u.blockIndex ≠ blockIndex)

def purgeable (s : Named) (safeHeight : Int) (graceFloor : Option Int) (d : NamedDispenser) : Bool :=
  match d.expiredBlockIndex with
  | none      => false
  | some mark =>
      mark ≤ safeHeight &&
        match graceFloor with
        | none       => true
        -- a mark whose block is gone has no time to keep it
        | some floor => d.expiration < floor && (s.blockTimeAt mark).all (fun time => time < floor)

def purgeExpiredDispensers (s : Named) (safeHeight : Int) (graceFloor : Option Int) : Named :=
  if safeHeight < 0 then s
  else { s with
    dispensers := s.dispensers.filter (fun d => !s.purgeable safeHeight graceFloor d)
    dispenserExtensionUndo :=
      s.dispenserExtensionUndo.filter (fun u => !decide (u.blockIndex ≤ safeHeight)) }

end Named

/-! ## Section 5: The pass of a block -/

/-- The store in the middle of a pass, with what the pass carries along. -/
structure NamedDraft where
  store         : Named
  lastTxIndex   : Int
  openAddresses : List String
deriving DecidableEq

namespace NamedDraft

def payments (rules : Rules) (head : BlockHead) (r : ParseResult) (commands : List String)
    (s : Named) : List Output :=
  capturedPayments rules commands
    (commands.flatMap (fun command =>
      s.oracleFeeAddresses r.source (rules.oracleRequest command head.time))) r.paymentOutputs

/-- The registrations of a transaction, one for each address. -/
def registrations (rules : Rules) (head : BlockHead) (r : ParseResult) (commands : List String) :
    List DispenserCreate :=
  collapseRegistrationsByKey id (rules.dispenserCreates commands r.source head.time)

def persistTransaction (rules : Rules) (head : BlockHead) (hash : Hash) (r : ParseResult)
    (stored : StoredRecord) (d : NamedDraft) : Option NamedDraft := do
  let commands := rules.captureCommands stored.data head.time
  let s ← d.store.insertTransaction (newTransaction head d.lastTxIndex hash r stored)
  let s ← Named.insertOutputs d.lastTxIndex r.dispenseOutputs s
  let s ← Named.insertOutputs d.lastTxIndex (payments rules head r commands s) s
  let creates := registrations rules head r commands
  let s := creates.foldl (fun s c => s.registerDispenser d.lastTxIndex c) s
  let s := (dispenserEdits rules commands r.source head.time).foldl
    (fun s edit => s.extendEditedDispenser head.blockIndex edit) s
  return { d with store := s, openAddresses := d.openAddresses ++ registeredAddresses creates }

def storeResult (rules : Rules) (head : BlockHead) (hash : Hash) (r : ParseResult)
    (d : NamedDraft) : Option NamedDraft :=
  if hasStorableContent r then
    let d := { d with lastTxIndex := d.lastTxIndex + 1 }
    let stored := buildStoredActionRecord rules r
    if stored.skip then some d
    else if rules.rejectsRow hash r.source r.destination stored.data stored.rawData then none
    else d.persistTransaction rules head hash r stored
  else some d

def ingestTransaction (rules : Rules) (head : BlockHead) (quarantined : Bool) (tx : RawTransaction)
    (d : NamedDraft) : Option NamedDraft :=
  if quarantined then some d
  else
    match tx.id with
    | none      => some d
    | some hash =>
        match rules.parseTransaction tx (· ∈ d.openAddresses) head.blockIndex with
        | .result r => d.storeResult rules head hash r
        | _         => some d

def ingestTransactions (rules : Rules) (head : BlockHead) (quarantined : Nat → Bool) :
    Nat → List RawTransaction → NamedDraft → Option NamedDraft
  | _,        [],        d => some d
  | position, tx :: txs, d =>
      (d.ingestTransaction rules head (quarantined position) tx).bind
        (ingestTransactions rules head quarantined (position + 1) txs)

def timesOf (rules : Rules) (blockIndex : Int) (block : RawBlock) (s : Named) : BlockTimeContext :=
  blockTimeContext rules block.timestamp
    (s.blockTimesBelow (historySpan rules block.timestamp) (blockIndex - 1))

def openBlock (rules : Rules) (blockIndex : Int) (hash : Hash) (block : RawBlock) (s : Named)
    (lastTxIndex : Int) : Option NamedDraft := do
  let times := timesOf rules blockIndex block s
  let s ← s.insertBlock blockIndex times.rawBlockTime hash block.prevHash
  let s := if gateActive rules.expiryRealignActivation times.protocolBlockTime then s
    else s.deleteOpenDispensers blockIndex times.protocolBlockTime
  return ⟨s, lastTxIndex, s.getAllOpenDispenserAddresses
    (cancelGraceFloor rules times.protocolBlockTime times.parentProtocolTime)⟩

def closeBlock (rules : Rules) (blockIndex : Int) (time : Int) (d : NamedDraft) : NamedDraft :=
  if gateActive rules.expiryRealignActivation time then
    { d with store := d.store.deleteOpenDispensers blockIndex time }
  else d

/-- The pass of one block. -/
def ingestBlock (rules : Rules) (quarantined : Nat → Bool) (blockIndex : Int) (hash : Hash)
    (block : RawBlock) (s : Named) (lastTxIndex : Int) : Option NamedDraft := do
  let time := (timesOf rules blockIndex block s).protocolBlockTime
  let d ← openBlock rules blockIndex hash block s lastTxIndex
  let d ← d.ingestTransactions rules ⟨blockIndex, hash, time⟩ quarantined 0 block.transactions
  return d.closeBlock rules blockIndex time

end NamedDraft

/-! ## Section 6: Reading the tables -/

namespace Tables

variable {weight : String → String}

/-- The address of a number; the blank one where it has none. -/
def addressOf (t : Tables weight) (id : Nat) : String := (t.indexAddresses.valueOf id).getD ""

def namedTransaction (t : Tables weight) (x : TransactionRow) : NamedTransaction where
  txIndex     := x.txIndex
  txHash      := t.indexTransactions.valueOf x.txHashId
  blockIndex  := x.blockIndex
  source      := t.addressOf x.sourceId
  destination := t.addressOf x.destinationId
  data        := x.data
  rawData     := x.rawData

def namedOutput (t : Tables weight) (o : TransactionOutputRow) : NamedOutput :=
  ⟨o.txIndex, o.vout, t.addressOf o.destinationId, o.amount⟩

def namedDispenser (t : Tables weight) (d : DispenserRow) : NamedDispenser where
  txIndex           := d.txIndex
  address           := t.addressOf d.addressId
  expiration        := d.expiration
  oracle            := d.oracleAddressId.map t.addressOf
  source            := d.sourceAddressId.map t.addressOf
  expiredBlockIndex := d.expiredBlockIndex

def namedUndo (t : Tables weight) (u : ExtensionUndoRow) : NamedUndo :=
  ⟨u.blockIndex, u.txIndex, t.addressOf u.addressId, u.priorExpiration, u.priorExpiredBlockIndex⟩

/-- The store the tables describe. -/
def named (t : Tables weight) : Named where
  blocks                 := t.blocks.map (toBlock t.indexTransactions)
  transactions           := t.transactions.map t.namedTransaction
  transactionOutputs     := t.transactionOutputs.map t.namedOutput
  dispensers             := t.dispensers.map t.namedDispenser
  dispenserExtensionUndo := t.dispenserExtensionUndo.map t.namedUndo

end Tables

def Draft.named {weight : String → String} (d : Draft weight) : NamedDraft :=
  ⟨d.tables.named, d.lastTxIndex, d.openAddresses⟩

end XChainDecoder
