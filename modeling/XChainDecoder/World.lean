import Mathlib.Data.Rat.Defs
import XChainDecoder.Lib.Process
import XChainDecoder.Db.Tables

/-! # The decoder process and its surroundings

    The process runs against a node and a database it does not control. `Env`
    lists, for every await in order, what the outside will answer there: each
    RPC reply, whether a database call fails after its retries, whether the
    process is killed, what a health probe running beside the loop reads. The
    answers may change from one call to the next in any way.

    `World` is the state: the committed tables, the image of the open block
    transaction, the fields of the decoder object and of the parse loop, and a
    log of what was asked, deleted, committed and purged. The log, `haltConfirmed`
    and `watch` are read by theorems only; no function of the model looks at
    them. -/

namespace XChainDecoder

/-! ## Section 1: Configuration -/

def DISPENSER_EXPIRE_SAFE_DEPTH : Nat := 126
def LTC_TESTNET_DISPENSER_EXPIRE_SAFE_DEPTH : Nat := 5006
def DB_TRANSACTION_BLOCKS_QUANTITY : Nat := 1
def UNPROVEN_RECHECK_MS : Nat := 60000
def TIP_SETTLE_MAX_READS : Nat := 5
def BLOCKCHAIN_INFO_REFRESH_MS : Nat := 30000
def REORG_HALT_PROBE_INTERVAL_MS : Nat := 60000
def UNREAD_PARK_REPROBE_MS : Nat := 5000
def MIN_VERIFICATION_PROGRESS_TO_PARSE : ℚ := 99 / 100
/-- The default bound of the REORG marker scan. -/
def REORG_SCAN_LIMIT : Nat := 10000

structure Config where
  /-- the collation of the address column -/
  weight : String → String
  startBlockIndex : Int
  start_nonneg : 0 ≤ startBlockIndex
  /-- 0 stands for an unset value -/
  dispenserExpireSafeDepth : Nat
  consensusNetwork : String
  /-- the pinned block-0 hash, `none` where the registry leaves it open -/
  chainGenesisHash : Option Hash
  /-- blocks per database transaction (`DB_TRANSACTION_BLOCKS_QUANTITY` in the source) -/
  blocksPerTransaction : Nat
  blocksPerTransaction_pos : 0 < blocksPerTransaction

/-- `safeDepthFor`: the configured depth, or the default. -/
def Config.safeDepth (cfg : Config) : Nat :=
  if cfg.dispenserExpireSafeDepth = 0 then DISPENSER_EXPIRE_SAFE_DEPTH
  else cfg.dispenserExpireSafeDepth

theorem Config.safeDepth_pos (cfg : Config) : 0 < cfg.safeDepth := by
  unfold safeDepth
  by_cases h : cfg.dispenserExpireSafeDepth = 0
  · rw [if_pos h]; decide
  · rw [if_neg h]; exact Nat.pos_of_ne_zero h

/-! ## Section 2: What the outside answers -/

/-- A `getblockchaininfo` reply; `none` stands for a field of the wrong type. -/
structure BlockchainInfo where
  blocks               : Option Int
  verificationprogress : Option ℚ
  initialblockdownload : Bool
  chain                : Option String
deriving DecidableEq, Repr

/-- The answer of a call that may throw or resolve to a missing value. -/
inductive InfoAnswer where
  | failed
  | missing
  | info (i : BlockchainInfo)
deriving DecidableEq, Repr

/-- The answer to a verbose `getblockheader`. -/
inductive HeaderAnswer where
  /-- error -5: the node does not know the hash -/
  | notFound
  | failed
  /-- resolved, but not to an object -/
  | unusable
  /-- `confirmations`, `none` when it is not an integer -/
  | header (confirmations : Option Int)
deriving DecidableEq, Repr

/-- A transaction of a fetched block: its id (`none` where `getId` throws) and
    its serialization. -/
structure RawTransaction where
  id    : Option Hash
  bytes : List UInt8
deriving DecidableEq, Repr

structure RawBlock where
  prevHash     : Hash
  timestamp    : Int
  transactions : List RawTransaction
deriving DecidableEq, Repr

/-- What fetching and decoding one block comes to. -/
inductive BlockAnswer where
  | failed
  | undecodable
  | block (b : RawBlock)
deriving DecidableEq, Repr

/-- What becomes of the health probe at some await. -/
inductive Probe where
  | none
  | failed
  /-- one reads the marker, to answer at a later await -/
  | issued
  /-- the one in flight answers; with none in flight one reads and answers -/
  | reads
deriving DecidableEq, Repr

/-- The answers, by the number of the await that gets them. -/
structure Env where
  crashes           : Nat → Bool
  dbFails           : Nat → Bool
  rpcFails          : Nat → Bool
  probe             : Nat → Probe
  now               : Nat → Nat
  getblockhash      : Nat → Int → Option String
  getblockheader    : Nat → Option Hash → HeaderAnswer
  getblockchaininfo : Nat → InfoAnswer
  getblock          : Nat → Hash → BlockAnswer

/-! ## Section 3: Failures -/

/-- The class a waiting refusal publishes. -/
inductive RefusalClass where
  | unprovenFork
  | sameChain
  | unread
  | nodeBehind
  /-- the class of a refusal that names none -/
  | refused
deriving DecidableEq, Repr

/-- Why a header answer proves nothing. -/
inductive Why where
  | noUsableHeader
  | nodeDoesNotKnow
  | headerUnread
  | onActiveChain (confirmations : Int)
  | noConfirmationCount
deriving DecidableEq, Repr

/-- The text of an error, with the values it names. -/
inductive Message where
  | database
  | rpc
  | commitFailed (blockIndex : Int)
  | foreignChain
  | refusedHalted (safeDepth : Nat)
  | depthUnread
  | halt (reason : HaltReason)
  | deleteAborted
  | waiting (blockIndex : Int) (blockHash : Option Hash) (why : Why)
  | aboveTipWaiting (blockIndex : Int) (blockHash : Option Hash) (cls : RefusalClass)
deriving DecidableEq, Repr

/-- What a published wait names. -/
structure WaitState where
  storedHeight : Option Int
  storedHash   : Option Hash
  cls          : RefusalClass
deriving DecidableEq, Repr

/-- A thrown error, with the tags the parse loop reads. -/
structure Failure where
  message           : Message
  reorgHalt         : Bool := false
  reorgWait         : Bool := false
  tipBelowStoredTip : Bool := false
  refusalClass      : Option RefusalClass := none
  reorgWaitState    : Option WaitState := none
  resetOnly         : Option Bool := none
deriving DecidableEq, Repr

/-! ## Section 4: State -/

/-- The outcome of asking the node whether it reorged away from a block. -/
structure ForkProof where
  proven  : Bool
  unknown : Bool
  why     : Option Why
deriving DecidableEq, Repr

/-- An unproven answer that stands until it is asked again. -/
structure ForkProofEntry where
  nodeTip   : Option Int
  blockHash : Option Hash
  setAt     : Nat
  result    : ForkProof
deriving DecidableEq, Repr

/-- Fields of the decoder object. -/
structure Memory where
  lastProcessedBlockIndex  : Int
  blockchainInfoLastBlock  : Int
  chainGenesisCheckedAt    : Nat
  reorgHalted              : Bool
  reorgHaltReason          : Option HaltReason
  reorgHaltCheckedAt       : Nat
  reorgHaltMarkerPersisted : Option Bool
  reorgHaltProbeFailed     : Bool
  reorgHaltParkCheckDue    : Bool
  reorgHaltParked          : Bool
  reorgHaltParkedHeight    : Option Int
  reorgHaltParkUnread      : Bool
  unreadParkProbeAt        : Nat
  forkProofCache           : Option ForkProofEntry
  reorgWait                : Option WaitState
  reorgCount               : Nat
  lastReorgDepth           : Nat
deriving DecidableEq, Repr

/-- The decoder object of a process that has just started. -/
def Memory.boot : Memory where
  lastProcessedBlockIndex  := -1
  blockchainInfoLastBlock  := -1
  chainGenesisCheckedAt    := 0
  reorgHalted              := false
  reorgHaltReason          := none
  reorgHaltCheckedAt       := 0
  reorgHaltMarkerPersisted := none
  reorgHaltProbeFailed     := false
  reorgHaltParkCheckDue    := false
  reorgHaltParked          := false
  reorgHaltParkedHeight    := none
  reorgHaltParkUnread      := false
  unreadParkProbeAt        := 0
  forkProofCache           := none
  reorgWait                := none
  reorgCount               := 0
  lastReorgDepth           := 0

/-- A transaction position of one block: height, block hash, position. -/
abbrev QuarantineKey : Type := Int × Hash × Nat

instance : LawfulBEq QuarantineKey := inferInstance

/-- Fields of the parse loop object. -/
structure LoopState where
  lastProcessedBlockIndex     : Int
  lastProcessedTxIndex        : Int
  blocksQuantity              : Int
  lastBlockchainInfo          : Option BlockchainInfo
  lastBlockchainInfoRefreshAt : Nat
  tipHashCheckedAt            : Nat
  tipBelowStoredTipRefused    : Option RefusalClass
  txParseRetryCounts          : List (QuarantineKey × Nat)
  insertQuarantineCounts      : List (QuarantineKey × Nat)
  insertQuarantine            : List QuarantineKey
  parseQuarantine             : List QuarantineKey
deriving DecidableEq, Repr

def LoopState.boot : LoopState where
  lastProcessedBlockIndex     := -1
  lastProcessedTxIndex        := -1
  blocksQuantity              := 0
  lastBlockchainInfo          := none
  lastBlockchainInfoRefreshAt := 0
  tipHashCheckedAt            := 0
  tipBelowStoredTipRefused    := none
  txParseRetryCounts          := []
  insertQuarantineCounts      := []
  insertQuarantine            := []
  parseQuarantine             := []

/-- A marker that a probe has read and not yet adopted. -/
structure Reading where
  marker   : Tables.HaltState
  issuedAt : Nat
  /-- a park has begun since it was read -/
  outdated : Bool
deriving DecidableEq, Repr

/-- What theorems follow of a park. -/
structure ParkWatch where
  /-- a halt has been raised, refused or found, and its park has not begun -/
  parking  : Bool
  /-- an answer without a halt, read before the park began, has been adopted -/
  misled   : Bool
  /-- a read issued since the park began has shown that it may end -/
  released : Bool
deriving DecidableEq, Repr

/-- What the log records; `began` is a block pass and the tables it starts on. -/
inductive Observed (weight : String → String) where
  | hashAnswer (height : Int) (answer : Option Hash)
  | headerAnswer (hash : Option Hash) (answer : HeaderAnswer)
  | infoAnswer (answer : InfoAnswer)
  | deleted (blockIndex : Int) (blockHash : Option Hash) (before : Tables weight)
  | deleteFailed (blockIndex : Int) (blockHash : Option Hash)
  | began (blockIndex : Int) (before : Tables weight)
  | committed (blockIndex : Int)
  | purged (rows : List DispenserRow)
deriving DecidableEq

/-- The state of a run. `log` is newest first; `inFlight` is the health probe that
    has read and not answered; `haltConfirmed` is set once some read has shown a
    live halt row. -/
structure World (weight : String → String) where
  db            : Tables weight
  txn           : Option (Tables weight)
  mem           : Memory
  loop          : LoopState
  tick          : Nat
  log           : List (Observed weight)
  inFlight      : Option Reading
  haltConfirmed : Bool
  watch         : ParkWatch
deriving DecidableEq

/-- The tables as the loop's own connection reads them. -/
def World.view {weight : String → String} (w : World weight) : Tables weight :=
  w.txn.getD w.db

/-- A process over the world of one configuration. -/
abbrev Decoder (cfg : Config) (α : Type) : Type := Proc Env (World cfg.weight) Failure α

end XChainDecoder
