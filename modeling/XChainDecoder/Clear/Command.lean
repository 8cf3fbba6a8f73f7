import XChainDecoder.Lib.Runs
import XChainDecoder.Ingest.Pass

/-! # The clear-reorg-halt command

    `clear_reorg_halt.js` lifts a durable halt: it checks that the rolled-back range
    was re-parsed and that no dispenser state can have been lost, and then has
    `clearReorgHalt` append a REORG_HALT_CLEARED row. It runs in a process of its own
    on an autocommit connection, so every statement sees what the decoder and other
    operators have committed by then.

    The state is the shared database and the commands issued so far, each at the
    statement it executes next. An action is one statement of one command, or one
    commit of the decoder: a block, a purge, the delete of a block with its REORG
    marker, and the two statements of `markReorgHalted`. The decoder's actions carry
    no order beyond what a statement itself checks, so every order of them is a run
    here. -/

namespace XChainDecoder

namespace Tables

variable {weight : String → String}

/-- `getReorgHaltMarker`: `readReorgHaltState` for the operator. -/
def getReorgHaltMarker (t : Tables weight) : HaltState := t.readReorgHaltState

/-- `countDispensers`. -/
def countDispensers (t : Tables weight) : Nat := t.dispensers.length

/-- `hasDispenserTransactions`; `likes` is the verdict of the three LIKE patterns on a
    `data` column, under its collation. -/
def hasDispenserTransactions (likes : String → Bool) (t : Tables weight) : Bool :=
  t.transactions.any (fun x => likes x.data)

/-- `countReorgDeletesAboveTip`, with nothing between its two statements. -/
def countReorgDeletesAboveTip (t : Tables weight) : Nat :=
  t.countReorgDeletesAbove t.getLastBlockIndex REORG_SCAN_LIMIT

end Tables

namespace ClearReorgHalt

/-! ## Section 1: A command -/

/-- What `parseArgs` made of the command line. -/
structure Args where
  reason : Option String
  force  : Bool
  dryRun : Bool
  help   : Bool
  bad    : Option String
deriving DecidableEq, Repr

/-- The process exit codes. -/
inductive Exit where
  | ok
  | failed
  | usage
  | notResynced
  | dispenserState
  | haltSuperseded
deriving DecidableEq, Repr

/-- `EXIT`. -/
def Exit.code : Exit → Nat
  | .ok             => 0
  | .failed         => 1
  | .usage          => 2
  | .notResynced    => 3
  | .dispenserState => 4
  | .haltSuperseded => 5

/-- White space and line ends, as `trim` strips them. -/
def isSpace (c : Char) : Bool :=
  c.toNat ∈ [0x09, 0x0a, 0x0b, 0x0c, 0x0d, 0x20, 0xa0, 0x1680, 0x2000, 0x2001, 0x2002, 0x2003,
    0x2004, 0x2005, 0x2006, 0x2007, 0x2008, 0x2009, 0x200a, 0x2028, 0x2029, 0x202f, 0x205f,
    0x3000, 0xfeff]

def trim (s : List Char) : List Char :=
  ((s.dropWhile isSpace).reverse.dropWhile isSpace).reverse

/-- The `length` of a string, in UTF-16 code units. -/
def utf16Length (s : List Char) : Nat := (s.map (fun c => if c.toNat < 0x10000 then 1 else 2)).sum

/-- The trimmed reason; empty where none is given. -/
def Args.trimmed (args : Args) : List Char := trim ((args.reason.getD "").toList)

def Args.reasonTooShort (args : Args) : Bool := utf16Length args.trimmed < 8

/-- The statement a command executes next. `pin` is the id of the halt row its checks
    are measured against, `tip` the stored tip that its marker scan goes by. -/
inductive Stage where
  | readingMarker
  | readingTip (pin : Nat)
  | scanningMarkers (pin : Nat) (tip : Int)
  | countingDispensers (pin : Nat)
  | probingTransactions (pin : Nat) (dispensers : Nat)
  | checkingSqlMode (pin : Nat)
  /-- the read of `clearReorgHalt` -/
  | rereading (pin : Nat)
  | inserting (pin : Nat)
  /-- the read-back -/
  | confirming
  | exited (exit : Exit)
deriving DecidableEq, Repr

/-- A command with the part of its history the decoder made. No statement reads it. -/
structure Command where
  args       : Args
  stage      : Stage
  /-- heights deleted since the command read the tip -/
  rolledBack : List Int
  /-- REORG_HALT rows written since `clearReorgHalt` read the halt state -/
  raised     : Nat
deriving DecidableEq, Repr

/-- How a statement ends for the party that issued it. -/
inductive Answer where
  | answered
  | failed
  /-- the server applied it, the party is told that it failed -/
  | unacknowledged
deriving DecidableEq, Repr

/-- `run` up to its first statement. -/
def Command.issue (args : Args) : Command :=
  let stage :=
    if args.help then .exited .ok
    else if args.bad.isSome then .exited .usage
    else if !args.dryRun && args.reasonTooShort then .exited .usage
    else .readingMarker
  ⟨args, stage, [], 0⟩

namespace Command

variable {weight : String → String}

/-- Where a command goes on once its statement has answered. -/
def next (likes : String → Bool) (t : Tables weight) (c : Command) : Stage :=
  match c.stage with
  | .readingMarker =>
      let marker := t.getReorgHaltMarker
      if marker.halted then
        match marker.id with
        | some pin => .readingTip pin
        | none     => .exited .failed
      else .exited .ok
  | .readingTip pin => .scanningMarkers pin t.getLastBlockIndex
  | .scanningMarkers pin tip =>
      if t.countReorgDeletesAbove tip REORG_SCAN_LIMIT = 0 then .countingDispensers pin
      else .exited .notResynced
  | .countingDispensers pin => .probingTransactions pin t.countDispensers
  | .probingTransactions pin dispensers =>
      let dispenserClean := dispensers = 0 && !t.hasDispenserTransactions likes
      if dispenserClean || c.args.force then .checkingSqlMode pin else .exited .dispenserState
  | .checkingSqlMode pin =>
      if c.args.dryRun then .exited .ok
      else if c.args.reasonTooShort then .exited .failed
      else .rereading pin
  | .rereading pin =>
      let state := t.readReorgHaltState
      if !state.halted then .exited .ok
      else if state.id = some pin then .inserting pin
      else .exited .haltSuperseded
  | .inserting _ => .confirming
  | .confirming  => if t.isReorgHalted then .exited .failed else .exited .ok
  | .exited exit => .exited exit

/-- The command once its statement has answered; the two reads start its history. -/
def answered (likes : String → Bool) (t : Tables weight) (c : Command) : Command :=
  { c with
    stage      := c.next likes t
    rolledBack := if c.stage matches .readingTip _ then [] else c.rolledBack
    raised     := if c.stage matches .rereading _ then 0 else c.raised }

/-- An error ends the command: `main` reports it, and `insertEvent` answers false. -/
def fails (c : Command) : Command := { c with stage := .exited .failed }

def running (c : Command) : Bool := !(c.stage matches .exited _)

def inserts (c : Command) : Bool := c.stage matches .inserting _

end Command

/-! ## Section 2: The shared database -/

/-- A REORG_HALT_CLEARED row as it is inserted. -/
structure Cleared (weight : String → String) where
  /-- the row its checks were pinned to -/
  pin    : Nat
  /-- its own id -/
  id     : Nat
  /-- the tables with the row in place -/
  tables : Tables weight

structure State (weight : String → String) where
  tables   : Tables weight
  /-- the halt state `markReorgHalted` has read and not acted on -/
  marking  : Option Tables.HaltState
  commands : List Command
  /-- the clear rows inserted so far, newest first -/
  cleared  : List (Cleared weight)

inductive Action where
  /-- an operator issues a command -/
  | issue (args : Args)
  /-- a command executes its statement -/
  | command (i : Nat) (answer : Answer)
  /-- the decoder commits the next block -/
  | ingest (quarantined : Nat → Bool) (hash : Hash) (block : RawBlock) (lastTxIndex : Int)
  | purgeDispensers (safeHeight : Int) (graceFloor : Option Int)
  | purgeUndo (safeHeight : Int)
  /-- it deletes a stored block, as a rollback or the finish of a halted walk does -/
  | deleteBlock (blockIndex : Int) (reorgBlockHash : Option Hash)
  /-- the two statements of `markReorgHalted` before its read-back -/
  | readHalt
  | insertHalt (reason : HaltReason) (answer : Answer)
  | restart

section Steps

variable {weight : String → String}

/-- A database nobody has issued a command on yet. -/
def State.init (t : Tables weight) : State weight := ⟨t, none, [], []⟩

/-- A write of the decoder to the chain rows. -/
def State.setRows (s : State weight) (f : ChainRows → ChainRows) : State weight :=
  { s with tables := { s.tables with toChainRows := f s.tables.toChainRows } }

def Command.sawDelete (blockIndex : Int) (c : Command) : Command :=
  { c with rolledBack := blockIndex :: c.rolledBack }

def Command.sawHalt (c : Command) : Command := { c with raised := c.raised + 1 }

/-- `deleteBlockByIndex`, as it commits. -/
def State.deleteBlock (s : State weight) (blockIndex : Int) (reorgBlockHash : Option Hash) :
    State weight :=
  { s with
    tables   := s.tables.deleteBlockByIndex blockIndex reorgBlockHash
    commands := s.commands.map (Command.sawDelete blockIndex) }

/-- The REORG_HALT row of `markReorgHalted`. -/
def State.raise (s : State weight) (reason : HaltReason) : State weight :=
  { s with
    tables   := s.tables.insertEvent (.reorgHalt reason)
    commands := s.commands.map Command.sawHalt }

/-- The write of a command's statement, put on record where it is a clear row. -/
def State.apply (s : State weight) (c : Command) : State weight :=
  match c.stage with
  | .inserting pin =>
      let t := s.tables.insertEvent (.reorgHaltCleared (some (String.ofList c.args.trimmed)))
      { s with tables := t, cleared := ⟨pin, t.events.length, t⟩ :: s.cleared }
  | _ => s

/-- One statement of command `i`. -/
def State.execute (likes : String → Bool) (s : State weight) (i : Nat) (c : Command)
    (answer : Answer) : State weight :=
  let after := match answer with
    | .answered => c.answered likes s.tables
    | _         => c.fails
  let s := if answer = .failed then s else s.apply c
  { s with commands := s.commands.set i after }

/-- Whether `markReorgHalted` goes on to its insert. -/
def insertsHalt (live : Tables.HaltState) : Bool := !live.halted || live.unauditedClear

end Steps

/-- One step; `none` where the action is not enabled. -/
def step (cfg : Config) (rules : Rules) (likes : String → Bool) (a : Action)
    (s : State cfg.weight) : Option (State cfg.weight) :=
  match a with
  | .issue args => some { s with commands := s.commands ++ [Command.issue args] }
  | .command i answer => (s.commands[i]?).bind (fun c =>
      if c.running then some (s.execute likes i c answer) else none)
  | .ingest quarantined hash block lastTxIndex =>
      (Draft.ingestBlock rules quarantined (s.tables.chainTip cfg.startBlockIndex + 1) hash block
        s.tables lastTxIndex).map (fun d => { s with tables := d.tables })
  | .purgeDispensers safeHeight graceFloor => some (s.setRows (·.purgeRows safeHeight graceFloor))
  | .purgeUndo safeHeight => some (s.setRows (·.purgeUndo safeHeight))
  | .deleteBlock blockIndex reorgBlockHash =>
      if blockIndex ∈ s.tables.heights then some (s.deleteBlock blockIndex reorgBlockHash) else none
  | .readHalt => some { s with marking := some s.tables.readReorgHaltState }
  | .insertHalt reason answer =>
      match s.marking with
      | some live =>
          if insertsHalt live then
            let s := { s with marking := none }
            some (if answer = .failed then s else s.raise reason)
          else none
      | none => none
  | .restart => some { s with marking := none }

/-! ## Section 3: The decoder's calls are runs of these actions -/

section Calls

variable {cfg : Config} {rules : Rules} {likes : String → Bool} {w w' : World cfg.weight}

/-- The decoder takes the tables from `t` to `t'` by these actions. -/
def Takes (cfg : Config) (rules : Rules) (likes : String → Bool) (as : List Action)
    (t t' : Tables cfg.weight) : Prop :=
  (Runs.run (step cfg rules likes) as (State.init t)).map State.tables = some t'

/-- `markReorgHalted` leaves the database as it was, or takes both of its statements. -/
theorem wp_markReorgHalted_takes {env : Env} (hw : Idle w) (reason : HaltReason) :
    (markReorgHalted reason : Decoder cfg Bool).wp env w (fun _ w' =>
      w'.db = w.db ∨ Takes cfg rules likes [.readHalt, .insertHalt reason .answered] w.db w'.db) := by
  have hidle : Idle (w.tock env) := idle_tock hw
  have hview : w.view = w.db := hw.view
  unfold markReorgHalted
  refine Proc.wp_bind.mpr (wp_query (.inl rfl) (.inl (tock_db env w)) ?_)
  rw [Proc.continuesWith_ok, hview]
  by_cases hlive : (w.db.readReorgHaltState.halted && !w.db.readReorgHaltState.unauditedClear) = true
  · rw [if_pos hlive, Proc.wp_pure]
    exact .inl (tock_db env w)
  · have hinserts : insertsHalt w.db.readReorgHaltState = true := by
      cases hhalted : w.db.readReorgHaltState.halted <;>
        cases hunaudited : w.db.readReorgHaltState.unauditedClear <;>
          simp [insertsHalt, hhalted, hunaudited] at hlive ⊢
    have htakes : ∀ w' : World cfg.weight, w'.db = w.db.insertEvent (.reorgHalt reason) →
        w'.db = w.db ∨ Takes cfg rules likes [.readHalt, .insertHalt reason .answered] w.db w'.db := by
      intro w' hdb
      right
      simp [Takes, step, State.init, State.raise, hinserts, hdb]
    rw [if_neg hlive]
    refine Proc.wp_bind.mpr (wp_insertEvent hidle (.inl (tock_db env w)) ?_ ?_)
    · rw [Proc.continuesWith_ok]
      simp
    · rw [Proc.continuesWith_ok, if_pos rfl]
      refine Proc.wp_tryCatch.mpr (wp_query ?_ ?_ ?_)
      · exact htakes _ (by simp)
      · exact htakes (World.tock env _) (by simp)
      · exact htakes _ (by simp)

/-- A delete that answers is one action. -/
theorem takes_of_deleted {blockIndex : Int} {hash : Option Hash} (h : Deleted blockIndex hash w w')
    (hstored : blockIndex ∈ w.db.heights) :
    Takes cfg rules likes [.deleteBlock blockIndex hash] w.db w'.db := by
  simp [Takes, step, State.init, State.deleteBlock, hstored, h.db]

end Calls

end ClearReorgHalt

end XChainDecoder
