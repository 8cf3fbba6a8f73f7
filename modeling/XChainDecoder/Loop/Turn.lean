import XChainDecoder.Loop.Park

/-! # One turn of the parse loop

    The loop of `start()` with the steps it takes (`startup.js`, `sync_loop.js`,
    `tip_refresh.js`, `block_ingest.js`): the park check, the refresh of the node
    tip with its refusals, the three rollbacks, and the next block. A turn answers
    how it ended; the exits that only log are one ending. `rounds` bounds the
    `while` loop of a rollback. -/

namespace XChainDecoder

variable {cfg : Config}

/-! ## Section 1: Answering a failed rollback -/

/-- `setReorgWait`. -/
def setReorgWait (err : Failure) : Decoder cfg Unit :=
  updateMem (fun mem => { mem with
    reorgWait := some (err.reorgWaitState.getD ⟨none, none, err.refusalClass.getD .unread⟩) })

/-- The proof wait is over. -/
def clearReorgWait : Decoder cfg Unit :=
  modify (fun w => { w with
    mem  := { w.mem with reorgWait := none }
    loop := { w.loop with tipBelowStoredTipRefused := none } })

/-- Publish a wait and pause; the cursors stay as they are. -/
def waitForProof (err : Failure) (cls : RefusalClass) : Decoder cfg Turn := do
  setReorgWait err
  updateLoop (fun loop => { loop with tipBelowStoredTipRefused := some cls })
  sleep
  return .waited

/-- `parkOrRethrow`: wait on an unproven block, park on a halt, rethrow the rest. -/
def parkOrRethrow (err : Failure) : Decoder cfg Turn :=
  if err.reorgWait then waitForProof err (err.refusalClass.getD .unread)
  else if !err.reorgHalt then throw err
  else do
    tryCatch (do deriveCursors; resetBatch) (fun _ => return ())
    let _ ← (if err.resetOnly.isSome then pure none else readRolledBackAboveTip)
    parkOnReorgHalt (← get).loop.lastProcessedBlockIndex false
    return .parked

/-- A `verifyReorg` pass against the tip the loop knows, with an answer to its
    refusals; behind a pass that succeeds the cursors are re-derived. -/
def reconcile (rounds : Nat) (refused : Failure → Decoder cfg Turn) : Decoder cfg Turn := do
  let tip := (← get).mem.blockchainInfoLastBlock
  match ← tryCatch (do verifyReorg rounds (some tip); return none)
      (fun err => some <$> refused err) with
  | some turn => return turn
  | none => do
      clearReorgWait
      deriveCursors
      resetBatch
      return .turned

/-! ## Section 2: At the node tip -/

/-- `equalHeightSwapHolds`: another hash at the stored height counts only once two
    readings agree on it. -/
def equalHeightSwapHolds (height : Int) (nodeHash : Hash) (storedHash : Option Hash) :
    Decoder cfg Bool := do
  match ← settleNodeReading (readNodeBlockHash height) TIP_SETTLE_MAX_READS nodeHash with
  | none         => return false
  | some settled => return some settled ≠ storedHash

/-- `reconcileEqualHeightTip`; `none` where there was nothing to reconcile. -/
def reconcileEqualHeightTip (rounds : Nat) : Decoder cfg (Option Turn) := do
  updateLoop (fun loop => { loop with tipHashCheckedAt := loop.lastBlockchainInfoRefreshAt })
  let height := (← get).loop.lastProcessedBlockIndex
  let read ← tryCatch
    (do
      let nodeHash ← getBlockHash height
      let storedBlock ← query (fun t => t.getBlockByIndex height)
      return storedBlock.map (fun b => (nodeHash, b.blockHash)))
    (fun _ => return none)
  match read with
  | none => return none
  | some (nodeHash, storedHash) =>
      if storedHash = some nodeHash then do
        clearReorgWait
        return none
      else do
        let holds ← equalHeightSwapHolds height nodeHash storedHash
        if holds then do
          endTransaction
          some <$> reconcile rounds parkOrRethrow
        else return none

/-- `waitAtTip`. -/
def waitAtTip (rounds : Nat) : Decoder cfg Turn := do
  let loop := (← get).loop
  let reconciled ← (if loop.tipHashCheckedAt < loop.lastBlockchainInfoRefreshAt ∧
      cfg.startBlockIndex ≤ loop.lastProcessedBlockIndex then reconcileEqualHeightTip rounds
    else pure none)
  match reconciled with
  | some turn => return turn
  | none => do
      sleep
      return .turned

/-! ## Section 3: Refreshing the node tip -/

/-- A reply that is refused is dropped, and asked for again after a pause. -/
def refuseChainTip : Decoder cfg Bool := do
  updateLoop (fun loop => { loop with lastBlockchainInfo := none })
  sleep
  return false

/-- `refuseForeignGenesis`, on its own cadence. -/
def foreignGenesis : Decoder cfg Bool := do
  let now ← dateNow
  if cfg.chainGenesisHash.isSome ∧
      BLOCKCHAIN_INFO_REFRESH_MS ≤ now - (← get).mem.chainGenesisCheckedAt then
    verifyChainGenesis
  else return false

/-- `fetchChainTip`: true when the loop has a tip to work with. -/
def fetchChainTip : Decoder cfg Bool := do
  match ← getBlockchainInfo with
  | .failed => do
      sleep
      return false
  | .missing => refuseChainTip
  | .info info => do
      updateLoop (fun loop => { loop with lastBlockchainInfo := some info })
      match info.wellFormed with
      | none => refuseChainTip
      | some (blocks, progress) =>
          if chainTierMismatch cfg.consensusNetwork info.chain then refuseChainTip
          else do
            let foreign ← foreignGenesis
            if foreign then refuseChainTip
            else if progress < MIN_VERIFICATION_PROGRESS_TO_PARSE then refuseChainTip
            else do
              let now ← dateNow
              updateMem (fun mem => { mem with blockchainInfoLastBlock := blocks })
              updateLoop (fun loop => { loop with lastBlockchainInfoRefreshAt := now })
              return true

/-- One reading of the node tip while it settles. -/
def readChainTip : Decoder cfg (Option Int) := do
  let fetched ← fetchChainTip
  let w ← get
  if fetched && !w.loop.lastBlockchainInfo.any (fun info => info.initialblockdownload) then
    return some w.mem.blockchainInfoLastBlock
  else return none

/-- `settleTipBelow`: two readings agree on a tip below `cursor`. -/
def settleTipBelow (cursor : Int) : Decoder cfg Bool := do
  match ← settleNodeReading readChainTip TIP_SETTLE_MAX_READS
      (← get).mem.blockchainInfoLastBlock with
  | none         => return false
  | some settled => return settled < cursor

/-- The answer of `reconcileOrphanBlocks` to a refusal: one that deleted nothing is
    waited for here. -/
def refuseOrphanBlocks (err : Failure) : Decoder cfg Turn :=
  if err.tipBelowStoredTip then waitForProof err (err.refusalClass.getD .refused)
  else parkOrRethrow err

/-- `reconcileOrphanBlocks`. -/
def reconcileOrphanBlocks (rounds : Nat) (cursor : Int) : Decoder cfg Turn := do
  let below ← settleTipBelow cursor
  if below then do
    endTransaction
    reconcile rounds refuseOrphanBlocks
  else return .turned

/-- `reconcileTipRegression`. -/
def reconcileTipRegression (rounds : Nat) (cursor : Int) : Decoder cfg Turn := do
  let catchingUp := (← get).loop.lastBlockchainInfo.any (fun info => info.initialblockdownload)
  if cursor = cfg.startBlockIndex - 1 ∨ catchingUp = true then do
    sleep
    return .turned
  else reconcileOrphanBlocks rounds cursor

/-- `refreshChainTip`; `none` where the turn goes on. -/
def refreshChainTip (rounds : Nat) (cursor : Int) : Decoder cfg (Option Turn) := do
  let fetched ← fetchChainTip
  if fetched then
    if (← get).mem.blockchainInfoLastBlock < cursor then
      some <$> reconcileTipRegression rounds cursor
    else return none
  else return some .turned

/-! ## Section 4: The next block -/

/-- `fetchNextBlock`; `none` where the node did not give a block. -/
def fetchNextBlock (height : Int) : Decoder cfg (Option (Hash × Option RawBlock)) :=
  tryCatch
    (do
      let hash ← getBlockHash height
      match ← answered (fun env t => env.getblock t hash) with
      | .failed      => fail .rpc
      | .undecodable => return some (hash, none)
      | .block block => return some (hash, some block))
    (fun _ => do
      sleep
      return none)

/-- `retryUndecodableBlock`. -/
def retryUndecodableBlock : Decoder cfg Turn := do
  endTransaction
  deriveCursors
  resetBatch
  sleep
  return .turned

/-- `rollBackDetectedReorg`. -/
def rollBackDetectedReorg (rounds : Nat) : Decoder cfg Turn := do
  endTransaction
  reconcile rounds parkOrRethrow

/-- `detectReorgAtBlock`; `none` where the next block extends the stored one. -/
def detectReorgAtBlock (rounds : Nat) (height : Int) (previousBlockHash : Hash) :
    Decoder cfg (Option Turn) := do
  match ← tryCatch (query (fun t => t.getBlockByIndex (height - 1))) (fun _ => return none) with
  | none => do
      sleep
      return some .turned
  | some previousBlock =>
      if previousBlock.blockHash ≠ some previousBlockHash then
        some <$> rollBackDetectedReorg rounds
      else return none

/-- `ingestNextBlock`. -/
def ingestNextBlock (rules : Rules) (rounds : Nat) : Decoder cfg Turn := do
  let height := (← get).loop.lastProcessedBlockIndex + 1
  match ← fetchNextBlock height with
  | none                    => return .turned
  | some (_, none)          => retryUndecodableBlock
  | some (hash, some block) => do
      let detected ← (if cfg.startBlockIndex < height then
        detectReorgAtBlock rounds height block.prevHash else pure none)
      match detected with
      | some turn => return turn
      | none => do
          clearReorgWait
          match ← storeBlock rules height hash block with
          | .rollback => return .rollback
          | .retried  => return .turned
          | .stored   => return .turned

/-! ## Section 5: The loop -/

/-- The tip is refreshed when nothing is known of it, when the loop has reached
    it, and on a wall-clock interval. -/
def refreshDue (now : Nat) (w : World cfg.weight) : Bool :=
  w.loop.lastBlockchainInfo.isNone ||
    w.mem.blockchainInfoLastBlock ≤ w.loop.lastProcessedBlockIndex ||
    BLOCKCHAIN_INFO_REFRESH_MS ≤ now - w.loop.lastBlockchainInfoRefreshAt

/-- The rest of a turn that is not held by a park. -/
def parseTurn (rules : Rules) (rounds : Nat) : Decoder cfg Turn := do
  let now ← dateNow
  let w ← get
  let refreshed ← (if refreshDue now w then
    refreshChainTip rounds w.loop.lastProcessedBlockIndex else pure none)
  match refreshed with
  | some turn => return turn
  | none => do
      let w ← get
      if w.loop.lastProcessedBlockIndex = w.mem.blockchainInfoLastBlock then waitAtTip rounds
      else
        match ← ingestNextBlock rules rounds with
        | .rollback => do
            resetAfterRollback
            return .rollback
        | turn => return turn

/-- One pass through the body of the loop in `start()`. -/
def iterate (rules : Rules) (rounds : Nat) : Decoder cfg Turn := do
  match ← reorgHaltHoldsLoop with
  | some turn => return turn
  | none      => parseTurn rules rounds

/-- `readLoopCursors`. -/
def readLoopCursors : Decoder cfg Unit := do
  let last ← query Tables.getLastBlockIndex
  let lastTx ← query Tables.getLastTxIndex
  modify (fun w => { w with
    mem  := { w.mem with
      lastProcessedBlockIndex := max last (cfg.startBlockIndex - 1)
      blockchainInfoLastBlock := -1 }
    loop := { LoopState.boot with
      lastProcessedBlockIndex := max last (cfg.startBlockIndex - 1)
      lastProcessedTxIndex := lastTx } })

/-- `bootDecoder`, on a database whose tables exist. -/
def bootDecoder : Decoder cfg Unit := do
  let foreign ← verifyChainGenesis
  if foreign then fail .foreignChain
  else do
    checkReorgHalt true
    readLoopCursors
    updateMem (fun mem => { mem with reorgHaltParkCheckDue := false })
    let _ ← parkOnRolledBackHalt
    return ()

end XChainDecoder
