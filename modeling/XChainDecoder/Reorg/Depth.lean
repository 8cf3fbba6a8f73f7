import XChainDecoder.Await

/-! # Reorg evidence and the depth ceiling

    What a rollback asks before it deletes a block: the node's own statement
    that it reorged away from that block (`reorged_away_proof.js`), and the
    depth already rolled back above the stored tip against the dispenser
    safe-depth window (`reorg_depth.js`). A rollback that does not fit the
    window raises a durable halt (`reorg_halt.js`); only a halt whose row was
    read back lets the walk go on, as a halted walk. -/

namespace XChainDecoder

/-! ## Section 1: The state of one verifyReorg run -/

/-- Why a halted walk stopped above the fork point. -/
inductive HaltStop where
  | storedTipUnread
  | storedBlockUnread (height : Int)
  | nodeHashUnread (height : Int)
  | readingsDisagree (height : Int)
  | noForkPoint (storedTip lowest : Int)
  | nodeMayHoldAbove (nodeTip above : Int)
  | unproven (blockIndex : Int) (why : Option Why) (unknown : Bool)
  | deleteFailed (blockIndex : Int)
deriving DecidableEq, Repr

/-- The variables a `verifyReorg` run carries from round to round. -/
structure Walk where
  nodeTip       : Option Int
  blocksDeleted : List (Int × Option Hash)
  retryCount    : Nat
  haltError     : Option Failure
  haltStop      : Option HaltStop
deriving DecidableEq, Repr

variable {cfg : Config}

def updateMem (f : Memory → Memory) : Decoder cfg Unit :=
  modify (fun w => { w with mem := f w.mem })

/-- A halt is in hand, and the park it leads to has not begun. -/
def watchPark : Decoder cfg Unit :=
  modify (fun w => { w with watch := { w.watch with parking := true } })

/-! ## Section 2: The durable halt -/

/-- `markReorgHalted`: true only when a halt row is readable afterwards. -/
def markReorgHalted (reason : HaltReason) : Decoder cfg Bool := do
  let live ← query Tables.readReorgHaltState
  if live.halted && !live.unauditedClear then return true
  else do
    let written ← insertEvent (.reorgHalt reason)
    if written then tryCatch (query Tables.isReorgHalted) (fun _ => return false)
    else return false

/-- One attempt at the marker; an error is a failed attempt. -/
def attemptHaltMarker (reason : HaltReason) : Decoder cfg Bool :=
  tryCatch (markReorgHalted reason) (fun _ => return false)

/-- `haltReorg`: set the health fields, then try the marker at most twice. -/
def haltReorg (reason : HaltReason) : Decoder cfg Unit := do
  let now ← dateNow
  updateMem (fun mem => { mem with
    reorgHalted := true, reorgHaltReason := some reason, reorgHaltCheckedAt := now })
  watchPark
  let first ← attemptHaltMarker reason
  let persisted ← (if first then pure true else attemptHaltMarker reason)
  modify (fun w => { w with
    mem := { w.mem with reorgHaltMarkerPersisted := some persisted }
    haltConfirmed := w.haltConfirmed || persisted })

/-- `raiseSafeDepthHalt`: with the marker confirmed the halt is recorded on the
    walk, else it is thrown. -/
def raiseSafeDepthHalt (reason : HaltReason) (walk : Walk) : Decoder cfg Walk := do
  haltReorg reason
  let err : Failure := { message := .halt reason, reorgHalt := true }
  if (← get).mem.reorgHaltMarkerPersisted = some true then
    return { walk with haltError := some err }
  else throw err

/-- `refuseHaltedRollback`. -/
def refuseHaltedRollback : Decoder cfg Unit := do
  let now ← dateNow
  updateMem (fun mem => { mem with reorgHalted := true, reorgHaltCheckedAt := now })
  watchPark
  throw { message := .refusedHalted cfg.safeDepth, reorgHalt := true }

/-! ## Section 3: The depth already rolled back -/

/-- `countReorgDeletesAboveTip`: two reads, the tip and the marker scan. -/
def countReorgDeletesAboveTip : Decoder cfg Nat := do
  let tip ← query Tables.getLastBlockIndex
  query (fun t => t.countReorgDeletesAbove tip REORG_SCAN_LIMIT)

/-- The count, retried `attempts` times in all. -/
def attemptPriorDepth : Nat → Decoder cfg Nat
  | 0     => fail .depthUnread
  | n + 1 => tryCatch countReorgDeletesAboveTip (fun _ => do
      pauseBefore n
      attemptPriorDepth n)

/-- `readPriorRollbackDepth`: an unreadable depth refuses the run. -/
def readPriorRollbackDepth : Decoder cfg Nat := attemptPriorDepth 3

/-- `assertWithinSafeDepth`: halt before a delete that would pass the window. -/
def assertWithinSafeDepth (lastBlockIndex : Int) (priorDepth : Nat) (walk : Walk) :
    Decoder cfg Walk :=
  if walk.haltError.isSome then return walk
  else if cfg.safeDepth ≤ priorDepth + walk.blocksDeleted.length then
    raiseSafeDepthHalt (.safeDepthExceeded cfg.safeDepth (priorDepth + walk.blocksDeleted.length)
      walk.blocksDeleted.length priorDepth lastBlockIndex) walk
  else return walk

/-! ## Section 4: The node's proof -/

def unproven (why : Why) (unknown : Bool) : ForkProof := ⟨false, unknown, some why⟩

/-- What one header answer proves: only confirmations -1 proves a reorg. -/
def ForkProof.ofAnswer : HeaderAnswer → ForkProof
  | .notFound => unproven .nodeDoesNotKnow true
  | .failed   => unproven .headerUnread false
  | .unusable => unproven .noUsableHeader false
  | .header confirmations =>
      if confirmations = some (-1) then ⟨true, false, none⟩
      else
        match confirmations with
        | some n => if 0 ≤ n then unproven (.onActiveChain n) false
                    else unproven .noConfirmationCount false
        | none   => unproven .noConfirmationCount false

/-- `proveReorgedAway`. -/
def proveReorgedAway (hash : Option Hash) : Decoder cfg ForkProof := do
  return ForkProof.ofAnswer (← getBlockHeader hash)

/-- Whether a cached answer still stands for this block at this node tip. -/
def ForkProofEntry.stands (e : ForkProofEntry) (nodeTip : Option Int) (hash : Option Hash)
    (now : Nat) : Bool :=
  (e.nodeTip = nodeTip ∧ e.blockHash = hash) && (e.setAt ≤ now ∧ now - e.setAt < UNPROVEN_RECHECK_MS)

/-- Keep an unproven answer for a while; a proof clears what is kept. -/
def Memory.keepForkProof (mem : Memory) (nodeTip : Option Int) (hash : Option Hash) (now : Nat)
    (result : ForkProof) : Memory :=
  { mem with
    forkProofCache := if result.proven then none else some ⟨nodeTip, hash, now, result⟩ }

/-- `proveForkReorgedAway`: an unproven answer stands for a while, a proof is
    never cached. -/
def proveForkReorgedAway (hash : Option Hash) (nodeTip : Option Int) : Decoder cfg ForkProof := do
  let now ← dateNow
  match (← get).mem.forkProofCache.filter (fun e => e.stands nodeTip hash now) with
  | some e => return e.result
  | none   => do
      let result ← proveReorgedAway hash
      updateMem (fun mem => mem.keepForkProof nodeTip hash now result)
      return result

/-- The class under which an unproven block is waited for. -/
def ForkProof.refusalClass (p : ForkProof) : RefusalClass :=
  if p.unknown then .unprovenFork
  else
    match p.why with
    | some (.onActiveChain _) => .sameChain
    | _                       => .unread

/-- The refusal of a block that is not proven reorged away. -/
def reorgWaitFailure (message : Message) (blockIndex : Int) (hash : Option Hash)
    (cls : RefusalClass) : Failure where
  message           := message
  reorgWait         := true
  tipBelowStoredTip := true
  refusalClass      := some cls
  reorgWaitState    := some ⟨some blockIndex, hash, cls⟩

/-- `requireReorgProof`: return only on a proof. -/
def requireReorgProof (blockIndex : Int) (hash : Option Hash) (nodeTip : Option Int) :
    Decoder cfg Unit := do
  let proof ← proveForkReorgedAway hash nodeTip
  if proof.proven then return ()
  else throw (reorgWaitFailure (.waiting blockIndex hash (proof.why.getD .headerUnread))
    blockIndex hash proof.refusalClass)

def raiseAboveTipWait {α : Type} (blockIndex : Int) (hash : Option Hash) (cls : RefusalClass) :
    Decoder cfg α :=
  throw (reorgWaitFailure (.aboveTipWaiting blockIndex hash cls) blockIndex hash cls)

/-- `requireAboveTipForkProof`: prove that the stored chain is already off the
    node's chain at the node's own tip, and answer the stored hash there. -/
def requireAboveTipForkProof (blockIndex : Int) (hash : Option Hash) (nodeTip : Int) :
    Decoder cfg (Option Hash) := do
  let boundary ← tryCatch (query (fun t => t.getBlockByIndex nodeTip))
    (fun _ => raiseAboveTipWait blockIndex hash .unread)
  match boundary.bind Block.blockHash with
  | none => raiseAboveTipWait blockIndex hash .unread
  | some boundaryHash => do
      let nodeHash ← tryCatch (getBlockHash nodeTip)
        (fun _ => raiseAboveTipWait blockIndex hash .unread)
      if boundaryHash = nodeHash then raiseAboveTipWait blockIndex hash .nodeBehind
      else do
        requireReorgProof nodeTip (some boundaryHash) (some nodeTip)
        return some boundaryHash

/-- `refuseOrHaltDeepGap`: with the fork at the node tip proven, halt before a
    rollback of the blocks above it that cannot fit the window. -/
def refuseOrHaltDeepGap (blockIndex : Int) (hash : Option Hash) (nodeTip : Int)
    (priorDepth : Nat) (walk : Walk) : Decoder cfg Walk := do
  let boundaryHash ← requireAboveTipForkProof blockIndex hash nodeTip
  let aboveTip := blockIndex - nodeTip
  let alreadyRolledBack := priorDepth + walk.blocksDeleted.length
  if alreadyRolledBack + aboveTip + 1 ≤ cfg.safeDepth then return walk
  else
    raiseSafeDepthHalt
      (.deepGap nodeTip boundaryHash aboveTip alreadyRolledBack cfg.safeDepth) walk

end XChainDecoder
