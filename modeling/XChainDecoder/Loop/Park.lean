import XChainDecoder.Reorg.Verify
import XChainDecoder.Ingest.Store

/-! # The park

    A loop that meets a live REORG_HALT stops parsing and stays up
    (`chain_integrity.js`, `sync_loop.js`). It parks at boot when the halt left
    rolled-back blocks above the stored tip or the marker could not be read, and
    on a rollback that was refused; it leaves the park when a probe answers that
    the halt is gone. -/

namespace XChainDecoder

variable {weight : String → String} {cfg : Config}

/-! ## Section 1: Probing the marker -/

/-- `checkReorgHalt`: un-forced, an answer that has not expired stands; where a
    probe is in flight the call waits for that one. -/
def checkReorgHalt (force : Bool) : Decoder cfg Unit := do
  let now ← dateNow
  if !force && !(← get).mem.probeDue now then return ()
  else
    match (← get).inFlight with
    | some _ => do
        let fails ← answered Env.dbFails
        modify (fun w =>
          match w.inFlight with
          | none   => w
          | some r => if fails then w.failProbe else w.adoptReading r)
    | none => do
        let fails ← answered Env.dbFails
        modify (fun w => if fails then w.failProbe else w.adoptReading (w.readMarker now))

/-- `readRolledBackAboveTip`: `none` where the count cannot be read. -/
def readRolledBackAboveTip : Decoder cfg (Option Nat) :=
  tryCatch (some <$> countReorgDeletesAboveTip) (fun _ => return none)

/-! ## Section 2: Parking -/

/-- The state once the loop has parked; a probe in flight has read before it. -/
def World.park (w : World weight) (height : Int) (unread : Bool) : World weight :=
  if w.mem.reorgHaltParked then w
  else
    { w with
      mem := { w.mem with
        reorgHaltParked := true
        reorgHaltParkedHeight := if 0 ≤ height then some height else none
        reorgHaltParkUnread := unread }
      inFlight := w.inFlight.map (fun r => { r with outdated := true })
      watch := { w.watch with parking := false, released := false } }

/-- `parkOnReorgHalt`. -/
def parkOnReorgHalt (height : Int) (unread : Bool) : Decoder cfg Unit :=
  modify (World.park · height unread)

/-- `parkOnRolledBackHalt`: park before the next block when a live halt left
    rolled-back blocks above the stored tip, or when that cannot be told. Answers
    whether it parked. -/
def parkOnRolledBackHalt : Decoder cfg Bool := do
  let mem := (← get).mem
  if mem.reorgHaltParked then return false
  else if mem.reorgHaltProbeFailed then do
    parkOnReorgHalt mem.lastProcessedBlockIndex true
    return true
  else if !mem.reorgHalted then return false
  else do
    watchPark
    let rolledBack ← readRolledBackAboveTip
    if rolledBack = some 0 then do
      modify (fun w => { w with watch := { w.watch with parking := false, released := true } })
      return false
    else do
      parkOnReorgHalt (← get).mem.lastProcessedBlockIndex false
      return true

/-! ## Section 3: Leaving the park -/

/-- `resumeFromUnreadPark`: only a real read ends it, and one that finds a halt
    goes through the park check again. -/
def resumeFromUnreadPark : Decoder cfg Bool := do
  let now ← dateNow
  let probeAt := (← get).mem.unreadParkProbeAt
  if 0 < probeAt ∧ now - probeAt < UNREAD_PARK_REPROBE_MS then return false
  else do
    updateMem (fun mem => { mem with unreadParkProbeAt := now })
    checkReorgHalt true
    let mem := (← get).mem
    if mem.reorgHaltProbeFailed then return false
    else do
      updateMem (fun mem => { mem with
        unreadParkProbeAt := 0, reorgHaltParked := false, reorgHaltParkedHeight := none
        reorgHaltParkUnread := false })
      if mem.reorgHalted then do
        let parked ← parkOnRolledBackHalt
        return !parked
      else return true

/-- `resumeFromReorgHaltPark`: true once the loop may parse again. A halt whose
    marker never persisted is never resumed from. -/
def resumeFromReorgHaltPark : Decoder cfg Bool := do
  let mem := (← get).mem
  if !mem.reorgHaltParked then return true
  else if mem.reorgHaltParkUnread then resumeFromUnreadPark
  else if mem.reorgHaltMarkerPersisted = some false then return false
  else do
    checkReorgHalt false
    if (← get).mem.reorgHalted then return false
    else do
      updateMem (fun mem => { mem with reorgHaltParked := false, reorgHaltParkedHeight := none })
      return true

/-- How a turn of the parse loop ends. -/
inductive Turn where
  /-- parked, and staying so -/
  | held
  /-- the park is over -/
  | resumed
  /-- a rollback was refused, and the loop has parked -/
  | parked
  /-- a rollback waits for the node's proof of a stored block -/
  | waited
  /-- the block pass was rolled back -/
  | rollback
  | turned
deriving DecidableEq, Repr

/-- `leaveReorgHaltPark`: resumed, the loop re-derives its cursors and polls the
    node afresh. -/
def leaveReorgHaltPark : Decoder cfg Turn := do
  let resumes ← resumeFromReorgHaltPark
  if resumes then do
    deriveCursors
    resetBatch
    updateLoop (fun loop => { loop with lastBlockchainInfo := none })
    return .resumed
  else do
    sleep
    return .held

/-- `reorgHaltHoldsLoop`: a turn of its own while the loop is parked. -/
def reorgHaltHoldsLoop : Decoder cfg (Option Turn) := do
  (if (← get).mem.reorgHaltParkCheckDue then do
    updateMem (fun mem => { mem with reorgHaltParkCheckDue := false })
    let _ ← parkOnRolledBackHalt
    return ()
  else return ())
  if (← get).mem.reorgHaltParked then some <$> leaveReorgHaltPark
  else return none

end XChainDecoder
