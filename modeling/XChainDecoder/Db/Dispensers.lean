import XChainDecoder.Db.Tables

/-! # Statements of a block pass

    What the block loop writes while it ingests one block: transactions, their
    outputs, dispenser creates and extensions, expiry marks, audit rows; and the
    two queries over dispensers it reads, the capture set of a block and the
    purge after a commit.

    A row that a primary or unique key refuses is `none` where the loop rolls
    the block back on it; `insertDispenser` and the undo rows ignore it. -/

namespace XChainDecoder

/-- A transaction as `insertTransaction` receives it. -/
structure NewTransaction where
  index        : Int
  hash         : Hash
  blockIndex   : Int
  source       : Option String
  sourcePubkey : Option String
  destination  : Option String
  data         : String
  rawData      : Option (List UInt8)
deriving DecidableEq, Repr

structure NewOutput where
  txIndex            : Int
  vout               : Nat
  destinationAddress : Option String
  amount             : Int
deriving DecidableEq, Repr

structure NewDispenser where
  txIndex       : Int
  address       : Option String
  sourceAddress : Option String
  oracleAddress : Option String
  expiration    : Int
deriving DecidableEq, Repr

namespace Tables

variable {weight : String → String}

/-! ## Section 1: Transactions and outputs -/

/-- `insertPubkey`: `INSERT IGNORE` under the address. -/
def insertPubkey (t : Tables weight) (addressId : Nat) (pubkey : String) : Tables weight :=
  if addressId ∈ t.pubkeys.map PubkeyRow.addressId then t
  else { t with pubkeys := t.pubkeys ++ [⟨addressId, pubkey⟩] }

/-- The key a transaction exposed is recorded for a real source only. -/
def recordSourcePubkey (t : Tables weight) (sourceId : Nat) : Option String → Tables weight
  | none        => t
  | some pubkey => if pubkey = "" ∨ sourceId = 1 then t else t.insertPubkey sourceId pubkey

def insertTransaction (t : Tables weight) (tx : NewTransaction) : Option (Tables weight) :=
  let h := t.createTransaction tx.hash
  let s := h.2.createAddress tx.source
  let d := s.2.createAddress tx.destination
  let p := d.2.recordSourcePubkey s.1 tx.sourcePubkey
  if tx.index ∈ t.txIndexes ∨
      h.1 ∈ t.transactions.map TransactionRow.txHashId then none
  else some { p with transactions :=
    t.transactions ++ [⟨tx.index, h.1, tx.blockIndex, s.1, d.1, tx.data, tx.rawData⟩] }

def insertTransactionOutput (t : Tables weight) (o : NewOutput) : Option (Tables weight) :=
  let d := t.createAddress o.destinationAddress
  if (o.txIndex, o.vout) ∈ t.transactionOutputs.map (fun r => (r.txIndex, r.vout)) then none
  else some { d.2 with transactionOutputs :=
    t.transactionOutputs ++ [⟨o.txIndex, o.vout, d.1, o.amount⟩] }

/-! ## Section 2: Dispensers -/

/-- An address column that is left NULL for an absent value. -/
def createOptionalAddress (t : Tables weight) : Option String → Option Nat × Tables weight
  | none         => (none, t)
  | some address =>
      if address = "" then (none, t)
      else
        let r := t.createAddress (some address)
        (some r.1, r.2)

/-- `insertDispenser`. The source is stored only for a delegated dispenser. A
    row whose key is taken is dropped without an error. -/
def insertDispenser (t : Tables weight) (n : NewDispenser) : Tables weight :=
  let a := t.createAddress n.address
  let o := a.2.createOptionalAddress n.oracleAddress
  let s := o.2.createOptionalAddress (if n.sourceAddress = n.address then none else n.sourceAddress)
  if (n.txIndex, a.1) ∈ t.dispensers.map (fun d => (d.txIndex, d.addressId)) then s.2
  else { s.2 with dispensers :=
    t.dispensers ++ [⟨n.txIndex, a.1, n.expiration, o.1, s.1, none⟩] }

end Tables

namespace ChainRows

/-- The rows a source may extend at `blockIndex`: those it operates or created
    that are open or were expired by this very block. -/
def extendable (sourceId : Option Nat) (blockIndex : Int) (d : DispenserRow) : Bool :=
  (sourceId.isSome && (some d.addressId = sourceId || d.sourceAddressId = sourceId)) &&
    (d.expiredBlockIndex = none || d.expiredBlockIndex = some blockIndex)

/-- The pre-image of a row, under the block that is about to overwrite it. -/
def undoRow (blockIndex : Int) (d : DispenserRow) : ExtensionUndoRow :=
  ⟨blockIndex, d.txIndex, d.addressId, d.expiration, d.expiredBlockIndex⟩

/-- Whether an undo row of this block and dispenser is there already. -/
def hasUndo (undo : List ExtensionUndoRow) (u : ExtensionUndoRow) : Bool :=
  undo.any (fun v => v.blockIndex = u.blockIndex ∧ v.txIndex = u.txIndex ∧ v.addressId = u.addressId)

def recordDispenserExtensionUndo (c : ChainRows) (sourceId : Option Nat) (blockIndex : Int) :
    ChainRows :=
  { c with
    dispenserExtensionUndo := c.dispenserExtensionUndo ++
      ((c.dispensers.filter (extendable sourceId blockIndex)).map (undoRow blockIndex)).filter
        (fun u => !hasUndo c.dispenserExtensionUndo u) }

/-- Lengthen a row's expiration and reopen it if this block expired it. -/
def extendRow (newExpiration blockIndex : Int) (d : DispenserRow) : DispenserRow :=
  { d with
    expiration := max d.expiration newExpiration
    expiredBlockIndex := if d.expiredBlockIndex = some blockIndex then none else d.expiredBlockIndex }

def extendOpenDispenserExpiration (c : ChainRows) (sourceId : Option Nat)
    (newExpiration blockIndex : Int) : ChainRows :=
  { c with dispensers := c.dispensers.map (fun d =>
      if extendable sourceId blockIndex d then extendRow newExpiration blockIndex d else d) }

/-- Mark a row expired by `blockIndex`. -/
def expireRow (blockIndex minExpiration : Int) (d : DispenserRow) : DispenserRow :=
  if d.expiration < minExpiration ∧ d.expiredBlockIndex = none
  then { d with expiredBlockIndex := some blockIndex } else d

/-- `deleteOpenDispensers`: soft-expire, the row stays. -/
def deleteOpenDispensers (c : ChainRows) (blockIndex minExpiration : Int) : ChainRows :=
  { c with dispensers := c.dispensers.map (expireRow blockIndex minExpiration) }

/-! ## Section 3: Capture and purge -/

/-- The header time of a stored block. -/
def blockTimeAt (c : ChainRows) (blockIndex : Int) : Option Int :=
  (c.blocks.find? (fun b => b.blockIndex = blockIndex)).map BlockRow.blockTime

/-- The header time of the block that marked a row, as the LEFT JOIN reads it. -/
def markTime (c : ChainRows) (d : DispenserRow) : Option Int :=
  d.expiredBlockIndex.bind c.blockTimeAt

/-- The rows whose address is a payment destination: the open ones and, under a
    grace floor, those marked or expiring no earlier than it. -/
def captures (c : ChainRows) (graceFloor : Option Int) (d : DispenserRow) : Bool :=
  match graceFloor with
  | none       => d.expiredBlockIndex = none
  | some floor =>
      d.expiredBlockIndex = none || (c.markTime d).any (fun time => floor ≤ time) ||
        floor ≤ d.expiration

/-- The rows a purge at `safeHeight` deletes. -/
def purgeable (c : ChainRows) (safeHeight : Int) (graceFloor : Option Int)
    (d : DispenserRow) : Bool :=
  match d.expiredBlockIndex with
  | none      => false
  | some mark =>
      mark ≤ safeHeight &&
        match graceFloor with
        | none       => true
        | some floor => d.expiration < floor && (c.markTime d).all (fun time => time < floor)

/-- The first statement of a purge. -/
def purgeRows (c : ChainRows) (safeHeight : Int) (graceFloor : Option Int) : ChainRows :=
  { c with dispensers := c.dispensers.filter (fun d => !c.purgeable safeHeight graceFloor d) }

/-- The second: undo rows are of use inside the same window only. -/
def purgeUndo (c : ChainRows) (safeHeight : Int) : ChainRows :=
  { c with
    dispenserExtensionUndo :=
      c.dispenserExtensionUndo.filter (fun u => !decide (u.blockIndex ≤ safeHeight)) }

/-- `purgeExpiredDispensers`: delete what no reorg can need any more. The two
    statements run outside a transaction. -/
def purgeExpiredDispensers (c : ChainRows) (safeHeight : Int) (graceFloor : Option Int) :
    ChainRows :=
  if safeHeight < 0 then c else (c.purgeRows safeHeight graceFloor).purgeUndo safeHeight

end ChainRows

namespace Tables

variable {weight : String → String}

def recordDispenserExtensionUndo (t : Tables weight) (source : String) (blockIndex : Int) :
    Tables weight :=
  { t with toChainRows :=
      t.toChainRows.recordDispenserExtensionUndo (t.indexAddresses.idOf source) blockIndex }

def extendOpenDispenserExpirationBySource (t : Tables weight) (source : String)
    (newExpiration blockIndex : Int) : Tables weight :=
  { t with
    toChainRows := t.toChainRows.extendOpenDispenserExpiration (t.indexAddresses.idOf source)
      newExpiration blockIndex }

def deleteOpenDispensers (t : Tables weight) (blockIndex minExpiration : Int) : Tables weight :=
  { t with toChainRows := t.toChainRows.deleteOpenDispensers blockIndex minExpiration }

def purgeExpiredDispensers (t : Tables weight) (safeHeight : Int) (graceFloor : Option Int) :
    Tables weight :=
  { t with toChainRows := t.toChainRows.purgeExpiredDispensers safeHeight graceFloor }

def getAllOpenDispenserAddresses (t : Tables weight) (graceFloor : Option Int) : List String :=
  (t.dispensers.filter (t.toChainRows.captures graceFloor)).filterMap
    (fun d => t.indexAddresses.valueOf d.addressId)

/-! ## Section 4: What the lookups leave alone

    Interning and recording a public key touch no chain row and no event, and
    the lookup tables only grow. -/

/-- The lookup and audit tables of `t` survive in `t'`, with rows added. -/
structure Grows (t t' : Tables weight) : Prop where
  addresses    : t.indexAddresses.rows <+: t'.indexAddresses.rows
  transactions : t.indexTransactions.rows <+: t'.indexTransactions.rows
  pubkeys      : t.pubkeys <+: t'.pubkeys
  events       : t.events <:+ t'.events

theorem Grows.refl (t : Tables weight) : Grows t t :=
  ⟨List.prefix_rfl, List.prefix_rfl, List.prefix_rfl, List.suffix_rfl⟩

theorem Grows.trans {t t' t'' : Tables weight} (h : Grows t t') (h' : Grows t' t'') :
    Grows t t'' where
  addresses    := h.addresses.trans h'.addresses
  transactions := h.transactions.trans h'.transactions
  pubkeys      := h.pubkeys.trans h'.pubkeys
  events       := h.events.trans h'.events

@[simp] theorem createTransaction_toChainRows (t : Tables weight) (hash : Hash) :
    (t.createTransaction hash).2.toChainRows = t.toChainRows := rfl

@[simp] theorem createTransaction_events (t : Tables weight) (hash : Hash) :
    (t.createTransaction hash).2.events = t.events := rfl

theorem createTransaction_grows (t : Tables weight) (hash : Hash) :
    Grows t (t.createTransaction hash).2 where
  addresses    := List.prefix_rfl
  transactions := Index.rows_prefix_create _ _ _
  pubkeys      := List.prefix_rfl
  events       := List.suffix_rfl

@[simp] theorem createAddress_toChainRows (t : Tables weight) (a : Option String) :
    (t.createAddress a).2.toChainRows = t.toChainRows := by
  cases a with
  | none => rfl
  | some a => by_cases h : a = "" <;> simp [createAddress, h]

@[simp] theorem createAddress_events (t : Tables weight) (a : Option String) :
    (t.createAddress a).2.events = t.events := by
  cases a with
  | none => rfl
  | some a => by_cases h : a = "" <;> simp [createAddress, h]

theorem createAddress_grows (t : Tables weight) (a : Option String) :
    Grows t (t.createAddress a).2 := by
  cases a with
  | none => exact Grows.refl t
  | some a =>
    by_cases h : a = ""
    · simpa [createAddress, h] using Grows.refl t
    · simp only [createAddress, if_neg h]
      exact ⟨Index.rows_prefix_create _ _ _, List.prefix_rfl, List.prefix_rfl, List.suffix_rfl⟩

@[simp] theorem createOptionalAddress_toChainRows (t : Tables weight) (a : Option String) :
    (t.createOptionalAddress a).2.toChainRows = t.toChainRows := by
  cases a with
  | none => rfl
  | some a => by_cases h : a = "" <;> simp [createOptionalAddress, h]

@[simp] theorem createOptionalAddress_events (t : Tables weight) (a : Option String) :
    (t.createOptionalAddress a).2.events = t.events := by
  cases a with
  | none => rfl
  | some a => by_cases h : a = "" <;> simp [createOptionalAddress, h]

theorem createOptionalAddress_grows (t : Tables weight) (a : Option String) :
    Grows t (t.createOptionalAddress a).2 := by
  cases a with
  | none => exact Grows.refl t
  | some a =>
    by_cases h : a = ""
    · simpa [createOptionalAddress, h] using Grows.refl t
    · simpa [createOptionalAddress, h] using createAddress_grows t (some a)

@[simp] theorem insertPubkey_toChainRows (t : Tables weight) (addressId : Nat) (pubkey : String) :
    (t.insertPubkey addressId pubkey).toChainRows = t.toChainRows := by
  unfold insertPubkey; split <;> rfl

@[simp] theorem insertPubkey_events (t : Tables weight) (addressId : Nat) (pubkey : String) :
    (t.insertPubkey addressId pubkey).events = t.events := by
  unfold insertPubkey; split <;> rfl

theorem insertPubkey_grows (t : Tables weight) (addressId : Nat) (pubkey : String) :
    Grows t (t.insertPubkey addressId pubkey) := by
  unfold insertPubkey
  split
  · exact Grows.refl t
  · exact ⟨List.prefix_rfl, List.prefix_rfl, List.prefix_append _ _, List.suffix_rfl⟩

@[simp] theorem recordSourcePubkey_toChainRows (t : Tables weight) (sourceId : Nat)
    (pubkey : Option String) :
    (t.recordSourcePubkey sourceId pubkey).toChainRows = t.toChainRows := by
  cases pubkey with
  | none => rfl
  | some pubkey => by_cases h : pubkey = "" ∨ sourceId = 1 <;> simp [recordSourcePubkey, h]

@[simp] theorem recordSourcePubkey_events (t : Tables weight) (sourceId : Nat)
    (pubkey : Option String) :
    (t.recordSourcePubkey sourceId pubkey).events = t.events := by
  cases pubkey with
  | none => rfl
  | some pubkey => by_cases h : pubkey = "" ∨ sourceId = 1 <;> simp [recordSourcePubkey, h]

theorem recordSourcePubkey_grows (t : Tables weight) (sourceId : Nat) (pubkey : Option String) :
    Grows t (t.recordSourcePubkey sourceId pubkey) := by
  cases pubkey with
  | none => exact Grows.refl t
  | some pubkey =>
    by_cases h : pubkey = "" ∨ sourceId = 1
    · simpa [recordSourcePubkey, h] using Grows.refl t
    · simpa [recordSourcePubkey, h] using insertPubkey_grows t sourceId pubkey

end Tables

end XChainDecoder
