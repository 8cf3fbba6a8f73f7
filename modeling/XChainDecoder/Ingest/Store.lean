import XChainDecoder.Await
import XChainDecoder.Ingest.Draft

/-! # storeBlock

    The block pass as the parse loop runs it (`block_store.js`,
    `transaction_ingest.js`, `dispenser_registration.js`): the statements of a
    draft, each on the open transaction, with every way a lookup or a statement
    can fail. A database call that fails in the block transaction rolls it back
    before it answers, so `false` and `none` mean that the transaction is gone
    and the pass must stop writing.

    A call that takes several queries is one await here: until the commit its
    writes are seen by nobody, so where it stops half way makes no difference. -/

namespace XChainDecoder

variable {cfg : Config}

/-! ## Section 1: Statements -/

def updateLoop (f : LoopState → LoopState) : Decoder cfg Unit :=
  modify (fun w => { w with loop := f w.loop })

/-- A statement of the pass. -/
def statement (f : Tables cfg.weight → Tables cfg.weight) : Decoder cfg Bool := do
  let fails ← answered Env.dbFails
  if fails then do
    endTransaction
    return false
  else do
    modify (World.write f)
    return true

/-- A statement that a unique key may refuse; the caller then ends the
    transaction. -/
def keyedStatement (f : Tables cfg.weight → Option (Tables cfg.weight)) : Decoder cfg Bool := do
  let fails ← answered Env.dbFails
  if fails then do
    endTransaction
    return false
  else
    match f (← get).view with
    | none => do
        endTransaction
        return false
    | some t => do
        modify (World.write (fun _ => t))
        return true

/-- A read whose failure rolls the block back. -/
def lookup {α : Type} (f : Tables cfg.weight → α) : Decoder cfg (Option α) := do
  let fails ← answered Env.dbFails
  if fails then do
    endTransaction
    return none
  else return some (f (← get).view)

/-! ## Section 2: Quarantine -/

/-- `countAttempt`: the attempts of a position, with one more. -/
def attemptsOf (attempts : List (QuarantineKey × Nat)) (key : QuarantineKey) : Nat :=
  ((attempts.find? (fun a => a.1 = key)).map Prod.snd).getD 0 + 1

def countAttempt (attempts : List (QuarantineKey × Nat)) (key : QuarantineKey) :
    List (QuarantineKey × Nat) :=
  (key, attemptsOf attempts key) :: attempts

/-- `clearQuarantineState`. -/
def LoopState.clearQuarantine (loop : LoopState) : LoopState :=
  { loop with
    txParseRetryCounts := [], insertQuarantineCounts := [], insertQuarantine := []
    parseQuarantine := [] }

def BlockHead.key (head : BlockHead) (position : Nat) : QuarantineKey :=
  (head.blockIndex, head.blockHash, position)

/-- `insertParseErrorEvent` and the like: an audit row, or a rollback. -/
def insertParseErrorEvent (head : BlockHead) (position : Nat) (hash : Option Hash)
    (error : String) : Decoder cfg Bool :=
  statement (Tables.insertEvent · (head.parseError position hash error))

/-- The untagged branch of `handleParseFailure`: retry the block, and after
    `TX_PARSE_MAX_RETRIES` retries skip the transaction. -/
def handleParseFailure (head : BlockHead) (position : Nat) (hash : Option Hash)
    (error : String) : Decoder cfg Bool := do
  let key := head.key position
  if key ∈ (← get).loop.parseQuarantine then insertParseErrorEvent head position hash error
  else do
    let attempt := attemptsOf (← get).loop.txParseRetryCounts key
    updateLoop (fun loop => { loop with
      txParseRetryCounts := countAttempt loop.txParseRetryCounts key })
    if attempt ≤ TX_PARSE_MAX_RETRIES then do
      endTransaction
      return false
    else do
      let recorded ← insertParseErrorEvent head position hash error
      if recorded then do
        updateLoop (fun loop => { loop with parseQuarantine := key :: loop.parseQuarantine })
        return true
      else return false

/-! ## Section 3: One transaction -/

/-- `insertTransactionRow`: the row; one the database rejects for its content is
    counted towards its quarantine. -/
def insertTransactionRow (rules : Rules) (head : BlockHead) (position : Nat) (hash : Hash)
    (r : ParseResult) (stored : StoredRecord) : Decoder cfg Bool := do
  let fails ← answered Env.dbFails
  if fails then do
    endTransaction
    return false
  else if rules.rejectsRow hash r.source r.destination stored.data stored.rawData then do
    endTransaction
    let key := head.key position
    updateLoop (fun loop => { loop with
      insertQuarantineCounts := countAttempt loop.insertQuarantineCounts key
      insertQuarantine :=
        if TX_PARSE_MAX_RETRIES < attemptsOf loop.insertQuarantineCounts key then
          key :: loop.insertQuarantine
        else loop.insertQuarantine })
    return false
  else do
    let index := (← get).loop.lastProcessedTxIndex
    match (← get).view.insertTransaction (newTransaction head index hash r stored) with
    | none => do
        endTransaction
        return false
    | some t => do
        modify (World.write (fun _ => t))
        return true

/-- `storeDispenseOutput` and the loop of `capturePaymentOutputs`. -/
def storeOutputs : List Output → Decoder cfg Bool
  | []      => return true
  | o :: os => do
      let index := (← get).loop.lastProcessedTxIndex
      let stored ← keyedStatement (fun t => t.insertOutput index o)
      if stored then storeOutputs os
      else return false

/-- `resolveOracleFeeAddressesForCommands`. -/
def resolveOracleFeeAddresses (rules : Rules) (head : BlockHead) (source : Option String) :
    List String → Decoder cfg (Option (List String))
  | []                  => return some []
  | command :: commands => do
      match ← lookup (fun t =>
          t.oracleFeeAddresses source (rules.oracleRequest command head.time)) with
      | none           => return none
      | some addresses => do
          match ← resolveOracleFeeAddresses rules head source commands with
          | none      => return none
          | some rest => return some (addresses ++ rest)

/-- `capturePaymentOutputs`. -/
def capturePaymentOutputs (rules : Rules) (head : BlockHead) (r : ParseResult)
    (commands : List String) : Decoder cfg Bool := do
  match ← resolveOracleFeeAddresses rules head r.source commands with
  | none         => return false
  | some oracles => storeOutputs (capturedPayments rules commands oracles r.paymentOutputs)

/-- `registerDispenser`, for each registration of a transaction. -/
def registerDispensers : List DispenserCreate → Decoder cfg Bool
  | []      => return true
  | c :: cs => do
      let index := (← get).loop.lastProcessedTxIndex
      let registered ← statement (Tables.registerDispenser index c)
      if registered then registerDispensers cs
      else return false

/-- `extendEditedDispenser`, for each edit of a transaction. -/
def extendEditedDispensers (blockIndex : Int) : List (String × Int) → Decoder cfg Bool
  | []            => return true
  | edit :: edits => do
      let recorded ← statement (Tables.recordDispenserExtensionUndo · edit.1 blockIndex)
      if recorded then do
        let extended ← statement (fun t =>
          t.extendOpenDispenserExpirationBySource edit.1 edit.2 blockIndex)
        if extended then extendEditedDispensers blockIndex edits
        else return false
      else return false

/-- `persistTransaction`; answers the capture set of the transactions after it. -/
def persistTransaction (rules : Rules) (head : BlockHead) (position : Nat) (hash : Hash)
    (r : ParseResult) (stored : StoredRecord) (openAddresses : List String) :
    Decoder cfg (Option (List String)) := do
  let commands := rules.captureCommands stored.data head.time
  if ← insertTransactionRow rules head position hash r stored then
    if ← storeOutputs r.dispenseOutputs then
      if ← capturePaymentOutputs rules head r commands then do
        let candidates := rules.dispenserCreates commands r.source head.time
        match ← lookup (Tables.collapseDispenserRegistrations rules head.time candidates) with
        | none       => return none
        | some keyed => do
            modify (World.write (fun _ => keyed.2))
            if ← registerDispensers keyed.1 then
              if ← extendEditedDispensers head.blockIndex
                  (dispenserEdits rules commands r.source head.time) then
                return some (openAddresses ++ registeredAddresses keyed.1)
              else return none
            else return none
      else return none
    else return none
  else return none

/-- `parseTransaction` with the lookups it makes: an RPC or a database lookup that
    fails is tagged, and the block is retried for as long as it takes. -/
def parseLookupsAnswer : Decoder cfg Bool := do
  let rpc ← answered Env.rpcFails
  if rpc then do
    endTransaction
    return false
  else do
    let db ← answered Env.dbFails
    if db then do
      endTransaction
      return false
    else return true

/-- The part of `ingestTransaction` behind a parse that succeeded. -/
def storeParseResult (rules : Rules) (head : BlockHead) (position : Nat) (hash : Hash)
    (r : ParseResult) (openAddresses : List String) : Decoder cfg (Option (List String)) :=
  if hasStorableContent r then do
    updateLoop (fun loop => { loop with lastProcessedTxIndex := loop.lastProcessedTxIndex + 1 })
    -- a skipped action keeps the index it has just taken
    let stored := buildStoredActionRecord rules r
    if stored.skip then return some openAddresses
    else persistTransaction rules head position hash r stored openAddresses
  else return some openAddresses

/-- `ingestTransaction`: the capture set for the next transaction, or `none` where
    the block is rolled back. -/
def ingestTransaction (rules : Rules) (head : BlockHead) (position : Nat) (tx : RawTransaction)
    (openAddresses : List String) : Decoder cfg (Option (List String)) := do
  if head.key position ∈ (← get).loop.insertQuarantine then do
    let recorded ← insertParseErrorEvent head position tx.id insertQuarantineError
    return if recorded then some openAddresses else none
  else
    match tx.id with
    | none => do
        let skipped ← handleParseFailure head position none (rules.idError tx)
        return if skipped then some openAddresses else none
    | some hash =>
        if ← parseLookupsAnswer then
          match rules.parseTransaction tx (· ∈ openAddresses) head.blockIndex with
          | .nothing => return some openAddresses
          | .throws error exposed => do
              modify (World.write
                (Tables.exposePubkey · (exposed.map Prod.fst) (exposed.map Prod.snd)))
              let skipped ← handleParseFailure head position (some hash) error
              return if skipped then some openAddresses else none
          | .result r => do
              modify (World.write (Tables.exposePubkey · r.source r.sourcePubkey))
              storeParseResult rules head position hash r openAddresses
        else return none

/-! ## Section 4: One block -/

/-- The loop over a block's transactions in `finishBlock`. -/
def ingestTransactions (rules : Rules) (head : BlockHead) :
    Nat → List RawTransaction → List String → Decoder cfg Bool
  | _,        [],        _             => return true
  | position, tx :: txs, openAddresses => do
      match ← ingestTransaction rules head position tx openAddresses with
      | none       => return false
      | some next  => ingestTransactions rules head (position + 1) txs next

/-- `fetchBlockTimes`: newest first, `none` where a read fails. -/
def fetchBlockTimes : Nat → Int → Decoder cfg (Option (List Int))
  | 0,        _      => return some []
  | span + 1, height =>
      if height < 0 then return some []
      else do
        match ← tryCatch (some <$> query (fun t => t.getBlockByIndex height))
            (fun _ => return none) with
        | none          => return none
        | some none     => return some []
        | some (some b) => do
            match ← fetchBlockTimes span (height - 1) with
            | none      => return none
            | some rest => return some (b.blockTime :: rest)

/-- `resolveBlockTimeContext`. -/
def resolveBlockTimeContext (rules : Rules) (blockIndex : Int) (block : RawBlock) :
    Decoder cfg (Option BlockTimeContext) := do
  match ← fetchBlockTimes (historySpan rules block.timestamp) (blockIndex - 1) with
  | none => do
      endTransaction
      return none
  | some times => return some (blockTimeContext rules block.timestamp times)

/-- Everything of `storeBlock` but the commit. -/
def fillBlock (rules : Rules) (blockIndex : Int) (hash : Hash) (block : RawBlock) :
    Decoder cfg (Option Int) := do
  match ← resolveBlockTimeContext rules blockIndex block with
  | none       => return none
  | some times => do
      let inserted ← keyedStatement (fun t =>
        t.insertBlock blockIndex times.rawBlockTime hash block.prevHash)
      if inserted then do
        let time := times.protocolBlockTime
        let expireAtEnd := gateActive rules.expiryRealignActivation time
        let expired ← (if expireAtEnd then pure true
          else statement (Tables.deleteOpenDispensers · blockIndex time))
        if expired then
          match ← lookup (fun t => t.getAllOpenDispenserAddresses
              (cancelGraceFloor rules time times.parentProtocolTime)) with
          | none               => return none
          | some openAddresses => do
              if ← ingestTransactions rules ⟨blockIndex, hash, time⟩ 0 block.transactions
                  openAddresses then do
                let closed ← (if expireAtEnd then
                  statement (Tables.deleteOpenDispensers · blockIndex time) else pure true)
                return if closed then some time else none
              else return none
        else return none
      else return none

/-! ## Section 5: Commit -/

/-- Re-derive the cursors from the stored rows. -/
def deriveCursors : Decoder cfg Unit := do
  let last ← query Tables.getLastBlockIndex
  modify (fun w => { w with
    mem  := { w.mem with lastProcessedBlockIndex := max last (cfg.startBlockIndex - 1) }
    loop := { w.loop with lastProcessedBlockIndex := max last (cfg.startBlockIndex - 1) } })
  let lastTx ← query Tables.getLastTxIndex
  updateLoop (fun loop => { loop with lastProcessedTxIndex := lastTx })

/-- `resetBatchCounters`, as far as the loop reads it. -/
def resetBatch : Decoder cfg Unit := updateLoop (fun loop => { loop with blocksQuantity := 0 })

/-- `purgeExpiredDispensers` behind a commit: two statements of their own. -/
def purgeExpiredAfterCommit (rules : Rules) (blockIndex time : Int) : Decoder cfg Unit := do
  let safeHeight := blockIndex - cfg.safeDepth
  let floor := purgeGraceFloor rules time
  if safeHeight < 0 then return ()
  else do
    let fails ← answered Env.dbFails
    if fails then return ()
    else do
      modify (fun w => { w with
        db := { w.db with toChainRows := w.db.toChainRows.purgeRows safeHeight floor }
        log := .purged (w.db.dispensers.filter
          (w.db.toChainRows.purgeable safeHeight floor)) :: w.log })
      let fails ← answered Env.dbFails
      if fails then return ()
      else modify (fun w => { w with
        db := { w.db with toChainRows := w.db.toChainRows.purgeUndo safeHeight } })

/-- How a pass ends. -/
inductive PassEnd where
  | rollback
  /-- the commit failed, and the cursors are those of the last committed block -/
  | retried
  | stored
deriving DecidableEq, Repr

/-- `commitBlockBatch`; false where the commit failed. -/
def commitBlockBatch (rules : Rules) (blockIndex time : Int) : Decoder cfg Bool := do
  let committed ← commitTransaction
  if committed then do
    observe (.committed blockIndex)
    updateLoop LoopState.clearQuarantine
    purgeExpiredAfterCommit rules blockIndex time
    updateLoop (fun loop => { loop with blocksQuantity := -1 })
    return true
  else do
    deriveCursors
    resetBatch
    sleep
    return false

/-- Whether the block just filled completes a batch. -/
def completesBatch (blockIndex : Int) (w : World cfg.weight) : Bool :=
  w.loop.blocksQuantity = (cfg.blocksPerTransaction : Int) - 1 ||
    blockIndex = w.mem.blockchainInfoLastBlock

/-- The end of `finishBlock`: commit a full batch, and advance. -/
def advance (rules : Rules) (blockIndex time : Int) : Decoder cfg PassEnd := do
  let committed ← (if completesBatch blockIndex (← get) then commitBlockBatch rules blockIndex time
    else pure true)
  if committed then do
    modify (fun w => { w with
      mem  := { w.mem with lastProcessedBlockIndex := blockIndex }
      loop := { w.loop with
        blocksQuantity := w.loop.blocksQuantity + 1, lastProcessedBlockIndex := blockIndex } })
    return .stored
  else return .retried

/-- `storeBlock`. -/
def storeBlock (rules : Rules) (blockIndex : Int) (hash : Hash) (block : RawBlock) :
    Decoder cfg PassEnd := do
  observe (.began blockIndex (← get).view)
  (if (← get).loop.blocksQuantity = 0 then beginTransaction else pure ())
  match ← fillBlock rules blockIndex hash block with
  | none      => return .rollback
  | some time => advance rules blockIndex time

/-- `resetAfterRollback`. -/
def resetAfterRollback : Decoder cfg Unit := do
  deriveCursors
  resetBatch
  sleep

end XChainDecoder
