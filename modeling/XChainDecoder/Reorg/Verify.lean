import XChainDecoder.Reorg.Depth

/-! # verifyReorg

    The rollback loop (`reorg_verification.js`) and the walk that finishes a
    rollback under a durable halt (`halted_walk.js`). A `while` loop of the
    source is `Proc.iterate` with a bound on its rounds; what runs out of the
    bound is `unfinished`, which no theorem about the result counts as one. -/

namespace XChainDecoder

variable {cfg : Config}

/-! ## Section 1: Deleting a block -/

/-- `db.deleteBlockByIndex`: the statements in one transaction of their own. -/
def deleteBlockByIndex (blockIndex : Int) (reorgBlockHash : Option Hash) : Decoder cfg Unit := do
  beginTransaction
  let before := (← get).db
  tryCatch
    (do
      let fails ← answered Env.dbFails
      if fails then fail .database
      else do
        modify (World.write (Tables.deleteBlockByIndex · blockIndex reorgBlockHash))
        let committed ← commitTransaction
        if committed then observe (.deleted blockIndex reorgBlockHash before)
        else fail (.commitFailed blockIndex))
    (fun err => do
      endTransaction
      throw err)

/-! ## Section 2: The halted walk -/

/-- `readNodeBlockHash`: a failed call is no reading. -/
def readNodeBlockHash (height : Int) : Decoder cfg (Option Hash) :=
  tryCatch (some <$> getBlockHash height) (fun _ => return none)

/-- `deleteHaltedBlock`: retry a failed delete, ten attempts in all. -/
def deleteHaltedBlock (block : Int × Option Hash) : Nat → Decoder cfg Bool
  | 0     => return false
  | n + 1 => tryCatch (do deleteBlockByIndex block.1 block.2; return true) (fun _ => do
      observe (.deleteFailed block.1 block.2)
      pauseBefore n
      deleteHaltedBlock block n)

/-- What a halted walk has read: why it stops, or the doomed blocks (top first)
    over a confirmed fork point. -/
inductive HaltedRead where
  | stop (why : HaltStop)
  | forkAt (storedTip : Int) (doomed : List (Int × Option Hash)) (forkPoint : Int)
deriving DecidableEq, Repr

/-- Read `n` heights down from `height`. -/
def scanHaltedWalk (tip : Option Int) (storedTip lowest : Int) :
    Nat → Int → List (Int × Option Hash) → Decoder cfg HaltedRead
  | 0,     _,      _      => return .stop (.noForkPoint storedTip lowest)
  | n + 1, height, doomed => do
      let stored ← tryCatch (query (fun t => t.getBlockByIndex height)) (fun _ => return none)
      match stored.bind Block.blockHash with
      | none => return .stop (.storedBlockUnread height)
      | some storedHash =>
          -- heights above the node tip are doomed without a reading
          let doomed' := doomed ++ [(height, some storedHash)]
          if tip.any (fun nodeTip => nodeTip < height) then
            scanHaltedWalk tip storedTip lowest n (height - 1) doomed'
          else do
            let first ← readNodeBlockHash height
            let second ← (if first.isNone then pure none else readNodeBlockHash height)
            match first, second with
            | some first, some second =>
                if first ≠ second then return .stop (.readingsDisagree height)
                else if first = storedHash then return .forkAt storedTip doomed height
                else scanHaltedWalk tip storedTip lowest n (height - 1) doomed'
            | _, _ => return .stop (.nodeHashUnread height)

/-- `readHaltedWalk`: from the stored tip down to the start height or the end of
    the budget, deleting nothing. -/
def readHaltedWalk (tip : Option Int) (budget : Int) : Decoder cfg HaltedRead := do
  let storedTip ← tryCatch (some <$> query Tables.getLastBlockIndex) (fun _ => return none)
  match storedTip with
  | none => return .stop .storedTipUnread
  | some storedTip =>
      let lowest := max cfg.startBlockIndex (storedTip - budget)
      scanHaltedWalk tip storedTip lowest (storedTip - lowest + 1).toNat storedTip []

/-- `deleteProvenBlocks`: top first, each on the node's proof for its own hash.
    Answers the blocks deleted and why it stopped, if it did. -/
def deleteProvenBlocks : List (Int × Option Hash) → List (Int × Option Hash) →
    Decoder cfg (List (Int × Option Hash) × Option HaltStop)
  | [],              blocksDeleted => return (blocksDeleted, none)
  | block :: doomed, blocksDeleted => do
      let proof ← proveReorgedAway block.2
      if proof.proven then do
        let gone ← deleteHaltedBlock block 10
        if gone then deleteProvenBlocks doomed (blocksDeleted ++ [block])
        else return (blocksDeleted, some (.deleteFailed block.1))
      else return (blocksDeleted, some (.unproven block.1 proof.why proof.unknown))

/-- `finishHaltedWalk`. -/
def finishHaltedWalk (priorDepth : Nat) (walk : Walk) : Decoder cfg Walk := do
  let read ← readHaltedWalk walk.nodeTip
    (2 * cfg.safeDepth - (priorDepth + walk.blocksDeleted.length : Nat))
  match read with
  | .stop why => return { walk with haltStop := some why }
  | .forkAt storedTip doomed forkPoint =>
      if walk.nodeTip = some forkPoint ∧ forkPoint < storedTip then
        return { walk with haltStop := some (.nodeMayHoldAbove forkPoint (storedTip - forkPoint)) }
      else do
        let (blocksDeleted, haltStop) ← deleteProvenBlocks doomed walk.blocksDeleted
        return { walk with blocksDeleted := blocksDeleted, haltStop := haltStop }

/-! ## Section 3: The node tip -/

/-- The tier names a node reports, by the network they belong to. -/
def CHAIN_TO_NETWORK : List (String × String) :=
  [("main", "mainnet"), ("test", "testnet"), ("testnet3", "testnet"), ("testnet4", "testnet"),
   ("regtest", "regtest"), ("signet", "signet")]

/-- `chainTierMismatch`: whether a reported chain proves another tier. -/
def chainTierMismatch (consensusNetwork : String) : Option String → Bool
  | none          => false
  | some reported =>
      match (CHAIN_TO_NETWORK.find? (fun p => p.1 = reported)).map Prod.snd with
      | none        => false
      | some mapped => mapped ≠ consensusNetwork

/-- `verifyChainGenesis`: true when the endpoint is proven to be another chain. -/
def verifyChainGenesis : Decoder cfg Bool :=
  match cfg.chainGenesisHash with
  | none        => return false
  | some pinned => do
      let reported ← tryCatch (some <$> getBlockHash 0) (fun _ => return none)
      match reported with
      | none => return false
      | some reported =>
          if pinned ≠ reported then return true
          else do
            let now ← dateNow
            updateMem (fun mem => { mem with chainGenesisCheckedAt := now })
            return false

/-- `blockchainInfoWellFormed`: the tip height and progress of a usable reply. -/
def BlockchainInfo.wellFormed (info : BlockchainInfo) : Option (Int × ℚ) :=
  match info.blocks, info.verificationprogress with
  | some blocks, some progress => some (blocks, progress)
  | _, _                       => none

/-- `readReorgTip`: the node tip through the loop's gates, or the tip given where
    the node cannot be read or a gate refuses the reply. -/
def readReorgTip (nodeTip : Option Int) : Decoder cfg (Option Int) := do
  match ← getBlockchainInfo with
  | .failed    => return nodeTip
  | .missing   => return nodeTip
  | .info info =>
      match info.wellFormed with
      | none => return nodeTip
      | some (blocks, progress) =>
          if chainTierMismatch cfg.consensusNetwork info.chain then return nodeTip
          else do
            let foreign ← verifyChainGenesis
            if foreign then return nodeTip
            else if info.initialblockdownload || progress < MIN_VERIFICATION_PROGRESS_TO_PARSE then
              return nodeTip
            else return some blocks

/-- `settleNodeReading`: re-read until two readings agree, at most `reads` times. -/
def settleNodeReading {α : Type} [DecidableEq α] (readOnce : Decoder cfg (Option α)) :
    Nat → α → Decoder cfg (Option α)
  | 0,         _        => return none
  | reads + 1, previous => do
      sleep
      match ← readOnce with
      | none      => return none
      | some next =>
          if next = previous then return some next
          else settleNodeReading readOnce reads next

/-- `refreshReorgTip`: a higher or equal tip is taken at once, a lower one only
    when two readings agree on it. -/
def refreshReorgTip (nodeTip : Option Int) : Decoder cfg (Option Int) := do
  let tip ← readReorgTip nodeTip
  if tip = nodeTip ∨ nodeTip.any (fun old => tip.any (fun new => old ≤ new)) then return tip
  else
    match tip with
    | none     => return nodeTip
    | some new => do
        let settled ← settleNodeReading (readReorgTip nodeTip) TIP_SETTLE_MAX_READS new
        return settled.or nodeTip

/-! ## Section 4: The walk -/

/-- The branch a failed delete belongs to. -/
def deleteFailedReason (aboveTip : Bool) : HaltReason :=
  if aboveTip then .deleteFailedAboveTip else .deleteFailedHashCompare

/-- The delete of one round, with its retry budget: the tenth failure halts and
    leaves `verifyReorg`. -/
def deleteWithRetry (aboveTip : Bool) (blockIndex : Int) (hash : Option Hash) (walk : Walk) :
    Decoder cfg Walk :=
  tryCatch
    (do
      deleteBlockByIndex blockIndex hash
      return { walk with
        retryCount := 0, blocksDeleted := walk.blocksDeleted ++ [(blockIndex, hash)] })
    (fun _ => do
      observe (.deleteFailed blockIndex hash)
      if 10 ≤ walk.retryCount + 1 then do
        haltReorg (deleteFailedReason aboveTip)
        fail .deleteAborted
      else do
        sleep
        return { walk with retryCount := walk.retryCount + 1 })

/-- `deleteAboveTipBlock`. -/
def deleteAboveTipBlock (blockIndex : Int) (hash : Option Hash) (nodeTip : Int)
    (priorDepth : Nat) (walk : Walk) : Decoder cfg Walk := do
  let walk ← refuseOrHaltDeepGap blockIndex hash nodeTip priorDepth walk
  if walk.haltError.isSome then return walk
  else do
    requireReorgProof blockIndex hash (some nodeTip)
    let walk ← assertWithinSafeDepth blockIndex priorDepth walk
    if walk.haltError.isSome then return walk
    else deleteWithRetry true blockIndex hash walk

/-- `deleteForkedBlock`. -/
def deleteForkedBlock (blockIndex : Int) (hash : Option Hash) (priorDepth : Nat) (walk : Walk) :
    Decoder cfg Walk := do
  requireReorgProof blockIndex hash walk.nodeTip
  let walk ← assertWithinSafeDepth blockIndex priorDepth walk
  if walk.haltError.isSome then return walk
  else deleteWithRetry false blockIndex hash walk

/-- `readLastStoredBlock`: `none` where a read failed, after a pause. -/
def readLastStoredBlock : Decoder cfg (Option (Int × Option Block)) :=
  tryCatch
    (do
      let lastBlockIndex ← query Tables.getLastBlockIndex
      let lastBlock ← query (fun t => t.getBlockByIndex lastBlockIndex)
      return some (lastBlockIndex, lastBlock))
    (fun _ => do
      sleep
      return none)

/-- One round of the walk: the next state of the loop, or its end. -/
def walkRound (priorDepth : Nat) (walk : Walk) : Decoder cfg (Walk ⊕ Walk) := do
  -- halted with a durable marker: one reading per delete no longer suffices
  if walk.haltError.isSome then do
    let walk ← finishHaltedWalk priorDepth walk
    return .inr walk
  else
    match ← readLastStoredBlock with
    | none => return .inl walk
    | some (_, none) => return .inr walk
    | some (lastBlockIndex, some lastBlock) =>
        if lastBlockIndex < cfg.startBlockIndex then return .inr walk
        else
          match walk.nodeTip.filter (fun nodeTip => nodeTip < lastBlockIndex) with
          | some nodeTip => do
              let walk ← deleteAboveTipBlock lastBlockIndex lastBlock.blockHash nodeTip
                priorDepth walk
              return .inl walk
          | none =>
              match ← tryCatch (some <$> getBlockHash lastBlockIndex) (fun _ => return none) with
              | none => do
                  let nodeTip ← refreshReorgTip walk.nodeTip
                  sleep
                  return .inl { walk with nodeTip := nodeTip }
              | some blockHashFromNode =>
                  if lastBlock.blockHash ≠ some blockHashFromNode then do
                    let walk ← deleteForkedBlock lastBlockIndex lastBlock.blockHash priorDepth walk
                    return .inl walk
                  else return .inr walk

/-- `walkReorg`, at most `rounds` rounds. -/
def walkReorg (priorDepth : Nat) (rounds : Nat) (walk : Walk) : Decoder cfg Walk :=
  Proc.iterate (walkRound priorDepth) rounds walk

/-- `finishReorgRun`: throw a recorded halt, else count a completed reorg. -/
def finishReorgRun (walk : Walk) : Decoder cfg Unit :=
  match walk.haltError with
  | some err => throw err
  | none     =>
      if 0 < walk.blocksDeleted.length then
        updateMem (fun mem => { mem with
          reorgCount := mem.reorgCount + 1, lastReorgDepth := walk.blocksDeleted.length })
      else return ()

/-- `verifyReorg`, with a bound on the rounds of its loop. -/
def verifyReorg (rounds : Nat) (nodeTip : Option Int) : Decoder cfg Unit := do
  let halted ← query Tables.isReorgHalted
  if halted then refuseHaltedRollback
  else do
    let priorDepth ← readPriorRollbackDepth
    let walk ← walkReorg priorDepth rounds ⟨nodeTip, [], 0, none, none⟩
    finishReorgRun walk

end XChainDecoder
