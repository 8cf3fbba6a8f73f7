import Mathlib.Data.List.Sort
import XChainDecoder.Lib.Text
import XChainDecoder.Migrate.LiveSchema
import XChainDecoder.Migrate.Server

/-! # The migration runner

    `runMigrations` and `verifyTables` as programs over the calls of a server, in the
    order of the source. What a run reads off its checkout and its settings is a
    `Release`: the migration files, what their texts say, and which edits of an applied
    file are pinned. Two processes may run different releases.

    Variables that a `finally` of the source reads are in `Locals`, since they outlive
    an error. -/

namespace XChainDecoder.Migrate

/-! ## Section 1: What a run is given -/

/-- A check that only reads information_schema, with the message it throws. -/
abbrev Inspection : Type := Prog String (fun _ => Rows) (Option String)

/-- What a checkout and the settings of a process decide. -/
structure Release where
  /-- the entries of the migrations directory, `none` where it cannot be read -/
  entries : Option (List String)
  entries_nodup : ∀ names ∈ entries, names.Nodup
  /-- the text of a migration file, `none` where it cannot be read -/
  read : String → Option (List Char)
  /-- the sha256 of a text -/
  checksum : List Char → String
  migrationMode : List Char → MigrationMode
  destructiveAutoStatement : List (List Char) → Option (List Char)
  /-- what `assertNoDeclaredKeyDrop` throws on the texts of src/sql -/
  declaredKeyDrop : String → List (List Char) → Option String
  assertNoLiveColumnLoss : String → List (List Char) → Inspection
  assertUniqueKeyWitness : String → List (List Char) → Inspection
  /-- the query of a precondition, and why its rows say the file does not apply -/
  preconditions : String → Option (String × (Rows → Option String))
  /-- the checksums an applied file may be healed from, and the one it is healed to -/
  rebaselines : String → Option (List String × String)
  strictChecksum : Bool
  /-- the statement limit the pool sets, in ms -/
  queryTimeout : ℕ
  migrateQueryTimeout : ℕ
  /-- the entries of src/sql -/
  sqlFiles : List String
  /-- the schema assertions behind a run, each with its query -/
  assertions : List (String × (Rows → Option String))

structure RunOptions where
  includeManual : Bool
  /-- the targets of a scoped run -/
  only : Option (List String)

structure Locals where
  applied      : List String
  pending      : List String
  baselined    : List String
  lockSkipped  : Bool
  sessionDirty : Bool
  /-- the statement limit has been raised -/
  touched      : Bool
  returnToPool : Bool
deriving DecidableEq, Repr

def Locals.start : Locals := ⟨[], [], [], false, false, false, true⟩

abbrev Runner (α : Type) : Type := Job Call Call.Answer Locals Failure α

/-- `this.getConnection()` -/
def lease : Runner ℕ := Job.ask (V := Call.Value) Call.lease

def query (c : ℕ) (q : Query) : Runner q.Value := Job.ask (V := Call.Value) (Call.query c q)

/-- `conn.release()` -/
def release (c : ℕ) : Runner Unit := Job.ask (V := Call.Value) (Call.release c)

/-- `conn.destroy()` -/
def destroy (c : ℕ) : Runner Unit := Job.ask (V := Call.Value) (Call.destroy c)

def fail {α : Type} (e : Failure) : Runner α := Job.stop e

def endsIn (text tail : String) : Bool := tail.toList.isSuffixOf text.toList

/-- `readdirSync(dir).filter(f => f.endsWith('.sql')).sort()` -/
def Release.files (rel : Release) : Option (List String) :=
  rel.entries.map (fun names => (names.filter (endsIn · ".sql")).insertionSort (· ≤ ·))

/-! ## Section 2: The statement limit and the lock -/

/-- `migrationSession.activate`: at most once a run. -/
def activate (rel : Release) (c : ℕ) : Runner Unit := do
  let l ← Job.locals
  if l.touched then pure ()
  else
    -- noted before the statement is sent, so that an error counts as raised
    Job.update (fun l => { l with touched := true })
    query c (.setStatementTime rel.migrateQueryTimeout)

def releaseMigrationLock (c : ℕ) : Runner Unit := (query c .releaseLock).quietly

/-- Whether the limit is restored; a connection where it is not is destroyed. -/
def restoreRuntimeTimeoutAndReleaseLock (rel : Release) (c : ℕ) : Runner Bool := do
  let restored ← (query c (.setStatementTime rel.queryTimeout)).attempt
  releaseMigrationLock c
  match restored with
  | .ok _    => pure true
  | .error _ => do
      (destroy c).quietly
      pure false

/-- `migrationSession.release`: whether the connection may be pooled. -/
def releaseSession (rel : Release) (c : ℕ) : Runner Bool := do
  let l ← Job.locals
  if l.touched then restoreRuntimeTimeoutAndReleaseLock rel c
  else
    releaseMigrationLock c
    pure true

/-- A connection that ran statements of a file is closed, any other goes back. -/
def retireMigrationConnection (c : ℕ) (sessionDirty : Bool) : Runner Unit :=
  if sessionDirty then (destroy c).quietly
  else (release c).quietly

def isStrictSqlMode (mode : String) : Bool :=
  let flags := (mode.toList.splitOn ',').map (fun flag => upper (Text.trim flag))
  (flags.contains "STRICT_TRANS_TABLES".toList || flags.contains "STRICT_ALL_TABLES".toList) &&
    !flags.contains "NO_BACKSLASH_ESCAPES".toList

/-- `assertStrictSqlMode` on a connection of the caller's. -/
def assertStrictSqlMode (c : ℕ) : Runner Unit := do
  let mode ← query c .sqlMode
  if isStrictSqlMode mode then pure () else fail (.laxSqlMode mode)

/-! ## Section 3: The ledger -/

def APPLIED_AT_TYPE : String :=
  "SELECT DATA_TYPE AS dataType FROM information_schema.COLUMNS WHERE TABLE_SCHEMA = DATABASE() AND TABLE_NAME = 'schema_migrations' AND COLUMN_NAME = 'applied_at'"

/-- The first column of the first row. -/
def firstCell (rows : Rows) : Option String := (rows.head?.bind List.head?).join

/-- `ensureMigrationsLedger`, with `ensureLedgerAppliedAtDatetime`. -/
def ensureMigrationsLedger (c : ℕ) : Runner Unit := do
  query c .createLedger
  let rows ← query c (.inspect APPLIED_AT_TYPE)
  -- an older ledger kept a TIMESTAMP
  if lower ((firstCell rows).getD "").toList = "timestamp".toList then
    query c .retypeAppliedAt
  else pure ()

def MIGRATION_LEDGER_RENAMES : List (String × String) := []

def planLedgerRenames (appliedNames : List String) : List (String × String) :=
  MIGRATION_LEDGER_RENAMES.filter (fun r => r.1 ∈ appliedNames ∧ r.2 ∉ appliedNames)

def orphanedLedgerNames (appliedNames files : List String) : List String :=
  (appliedNames.filter (fun name => name ∉ files)).insertionSort (· ≤ ·)

structure Context where
  includeManual    : Bool
  only             : Option (List String)
  conn             : ℕ
  appliedByName    : List (String × String)
  orphanByChecksum : String → Option String

/-- `loadAppliedLedger` -/
def loadAppliedLedger (c : ℕ) (files : List String) :
    Runner (List (String × String) × (String → Option String)) := do
  let rows ← query c .readLedger
  let renames := planLedgerRenames (rows.map LedgerRow.name)
  Job.forEach (fun r => query c (.write (.rekey r.1 r.2))) renames
  let appliedByName := rows.map (fun r => ((renames.lookup r.name).getD r.name, r.checksum))
  -- ledger rows whose file is not in the tree, by the checksum they recorded
  let orphans := orphanedLedgerNames (appliedByName.map Prod.fst) files
  pure (appliedByName, fun checksum =>
    orphans.find? (fun name => appliedByName.lookup name = some checksum ∧ checksum ≠ ""))

/-- The name opens with a date `YYYY-MM-DD-`. -/
def isDated (name : String) : Bool :=
  match name.toList with
  | y₁ :: y₂ :: y₃ :: y₄ :: '-' :: m₁ :: m₂ :: '-' :: d₁ :: d₂ :: '-' :: _ =>
      [y₁, y₂, y₃, y₄, m₁, m₂, d₁, d₂].all Char.isDigit
  | _ => false

/-- The dated name in the ledger that `pendingName` sorts before, if the last one is. -/
def backdatedFrontierViolation (pendingName : String) (appliedNames : List String) : Option String :=
  let frontier := (appliedNames.filter isDated).foldl
    (fun frontier name =>
      match frontier with
      | none   => some name
      | some f => if f < name then some name else some f) none
  frontier.filter (fun f => pendingName < f)

/-- The edit of an applied file is one of the pinned ones. -/
def Release.isPinned (rel : Release) (file : String) (recorded : Option String)
    (checksum : String) : Bool :=
  match rel.rebaselines file with
  | some (fromList, toChecksum) => recorded.any (fromList.contains ·) && checksum = toChecksum
  | none                        => false

def reconcileAppliedMigration (rel : Release) (ctx : Context) (file checksum : String) :
    Runner Bool := do
  let recorded := ctx.appliedByName.lookup file
  -- `true` in every branch that does not throw: an applied file never goes on
  if recorded = some checksum then pure true
  else if rel.isPinned file recorded checksum then
    query ctx.conn (.write (.rebaseline file checksum))
    pure true
  else if ctx.includeManual || rel.strictChecksum then fail (.contentChanged file recorded checksum)
  else pure true

def guardUnregisteredRename (rel : Release) (ctx : Context) (file checksum : String) :
    Runner Bool := do
  match ctx.orphanByChecksum checksum with
  | none         => pure false
  | some oldName =>
      if ctx.includeManual || rel.strictChecksum then fail (.unregisteredRename file oldName)
      else
        Job.update (fun l => { l with pending := l.pending ++ [file] })
        pure true

def guardMigrationFrontier (rel : Release) (ctx : Context) (file : String) (mode : MigrationMode) :
    Runner Unit :=
  if mode = .auto then
    match backdatedFrontierViolation file (ctx.appliedByName.map Prod.fst) with
    | none          => pure ()
    | some frontier =>
        if ctx.includeManual || rel.strictChecksum then fail (.backdated file frontier) else pure ()
  else pure ()

/-! ## Section 4: One file -/

/-- Run a read-only check on a connection. -/
def inspect (c : ℕ) : Inspection → Runner (Option String)
  | .ret message => pure message
  | .call sql k  => do
      let rows ← query c (.inspect sql)
      inspect c (k rows)

def throwMessage (f : String → Failure) : Option String → Runner Unit
  | none         => pure ()
  | some message => fail (f message)

def migrationPreconditionSkip (rel : Release) (c : ℕ) (file : String) : Runner (Option String) := do
  match rel.preconditions file with
  | none                 => pure none
  | some (sql, skipWhen) => do
      let rows ← query c (.inspect sql)
      pure (skipWhen rows)

def migrationModeOrSkip (rel : Release) (ctx : Context) (file : String) (raw : List Char) :
    Runner (Option MigrationMode) := do
  let mode := rel.migrationMode raw
  let preconditionSkip ← migrationPreconditionSkip rel ctx.conn file
  if preconditionSkip.isSome then
    -- recorded as done without running it
    query ctx.conn (.write (.baseline ⟨file, rel.checksum raw, mode⟩))
    Job.update (fun l => { l with baselined := l.baselined ++ [file] })
    pure none
  else if mode ≠ .auto ∧ ¬ctx.includeManual then
    Job.update (fun l => { l with pending := l.pending ++ [file] })
    pure none
  else pure (some mode)

/-- What an auto file has to pass. -/
def guardAutoFile (rel : Release) (c : ℕ) (file : String) (statements : List (List Char)) :
    Runner Unit := do
  match rel.destructiveAutoStatement statements with
  | some offender => fail (.destructive file offender)
  | none          => do
      throwMessage (.guarded file) (rel.declaredKeyDrop file statements)
      let loss ← inspect c (rel.assertNoLiveColumnLoss file statements)
      throwMessage (.guarded file) loss
      let witness ← inspect c (rel.assertUniqueKeyWitness file statements)
      throwMessage (.guarded file) witness

def applyMigrationFile (rel : Release) (ctx : Context) (file : String) (raw : List Char)
    (mode : MigrationMode) : Runner Unit := do
  let statements := splitSqlStatements raw
  -- the guards run before the limit is raised and before the first statement
  Job.when (mode = .auto) (guardAutoFile rel ctx.conn file statements)
  activate rel ctx.conn
  Job.update (fun l => { l with sessionDirty := true })
  Job.forEach (fun text => query ctx.conn (.execute file text)) statements
  query ctx.conn (.write (.apply ⟨file, rel.checksum raw, mode⟩))
  Job.update (fun l => { l with applied := l.applied ++ [file] })

/-- `appliedByName.has(file) && await reconcileAppliedMigration(…)` -/
def isReconciled (rel : Release) (ctx : Context) (file checksum : String) : Runner Bool :=
  if (ctx.appliedByName.lookup file).isSome then reconcileAppliedMigration rel ctx file checksum
  else pure false

/-- A dated file of the tree, once it is read. -/
def processRead (rel : Release) (ctx : Context) (file : String) (raw : List Char) : Runner Unit := do
  let reconciled ← isReconciled rel ctx file (rel.checksum raw)
  if reconciled then pure ()
  else
    let renamed ← guardUnregisteredRename rel ctx file (rel.checksum raw)
    if renamed then pure ()
    else
      let mode ← migrationModeOrSkip rel ctx file raw
      match mode with
      | none      => pure ()
      | some mode => do
          guardMigrationFrontier rel ctx file mode
          applyMigrationFile rel ctx file raw mode

def processMigration (rel : Release) (ctx : Context) (file : String) : Runner Unit :=
  if ctx.only.any (fun only => !only.contains file) then
    -- a file outside the scope of the run is left for another one
    if (ctx.appliedByName.lookup file).isSome then pure ()
    else Job.update (fun l => { l with pending := l.pending ++ [file] })
  else if isDated file then
    match rel.read file with
    | none     => fail (.unreadable file)
    | some raw => processRead rel ctx file raw
  else fail (.undated file)

/-! ## Section 5: A run -/

/-- The targets of a scoped run, trimmed, without the empty ones. -/
def RunOptions.targets (opts : RunOptions) : Option (List String) :=
  opts.only.map (fun names =>
    (names.map (fun name => String.ofList (Text.trim name.toList))).filter (· ≠ ""))

def validateMigrationTargets (files : List String) : Option (List String) → Runner Unit
  | none      => pure ()
  | some []   => fail .emptyTargets
  | some only =>
      let unknown := only.filter (fun name => name ∉ files)
      if unknown = [] then pure () else fail (.unknownTargets unknown)

/-- The files, under the lock. -/
def processFiles (rel : Release) (opts : RunOptions) (c : ℕ) (files : List String) : Runner Unit := do
  Job.when (opts.targets = none) (activate rel c)
  ensureMigrationsLedger c
  let loaded ← loadAppliedLedger c files
  Job.forEach (processMigration rel ⟨opts.includeManual, opts.targets, c, loaded.1, loaded.2⟩) files

def migrateUnderLock (rel : Release) (opts : RunOptions) (c : ℕ) (files : List String) :
    Runner Unit := do
  let strict ← (assertStrictSqlMode c).attempt
  match strict with
  | .error e => do
      -- a session of the wrong mode is not given back to the pool
      Job.update (fun l => { l with sessionDirty := true })
      fail e
  | .ok _    => do
      let got ← query c .getLock
      if got then
        (processFiles rel opts c files).always (do
          let pooled ← releaseSession rel c
          Job.update (fun l => { l with returnToPool := pooled }))
      else Job.update (fun l => { l with lockSkipped := true })

def runMigrationsInner (rel : Release) (opts : RunOptions) : Runner Unit :=
  match rel.files with
  | none | some []        => pure ()
  | some (first :: files) => do
      validateMigrationTargets (first :: files) opts.targets
      let c ← lease
      (migrateUnderLock rel opts c (first :: files)).always (do
        let l ← Job.locals
        if l.returnToPool then retireMigrationConnection c l.sessionDirty else pure ())

/-- On a connection of its own. -/
def withConnection (check : ℕ → Runner Unit) : Runner Unit := do
  let c ← lease
  (check c).always (release c).quietly

/-- One schema assertion. -/
def assertSchema (c : ℕ) (assertion : String × (Rows → Option String)) : Runner Unit := do
  let rows ← query c (.inspect assertion.1)
  throwMessage .asserted (assertion.2 rows)

def runMigrations (rel : Release) (opts : RunOptions) : Runner Unit := do
  withConnection assertStrictSqlMode
  runMigrationsInner rel opts
  Job.forEach (fun assertion => withConnection (assertSchema · assertion)) rel.assertions

/-! ## Section 6: A database built from empty -/

/-- No table that src/sql declares exists yet. -/
def isFreshSchema (sqlFiles existing : List String) : Bool :=
  let declared := (sqlFiles.filter (endsIn · ".sql")).map (fun f => String.ofList (f.toList.dropLast.dropLast.dropLast.dropLast))
  declared ≠ [] && !declared.any (existing.contains ·)

def recordFile (rel : Release) (c : ℕ) (file : String) : Runner Unit :=
  match rel.read file with
  | none     => fail (.unreadable file)
  | some raw => query c (.write (.ensure ⟨file, rel.checksum raw, rel.migrationMode raw⟩))

def recordInTransaction (rel : Release) (c : ℕ) (files : List String) : Runner Unit := do
  query c .startTransaction
  let recorded ← (do
    Job.forEach (recordFile rel c) files
    query c .commit : Runner Unit).attempt
  match recorded with
  | .ok _    => pure ()
  | .error e => do
      (query c .rollback).quietly
      fail e

def recordFreshSchemaMigrations (rel : Release) (c : ℕ) : Runner Unit :=
  match rel.files with
  | none | some []        => pure ()
  | some (first :: files) => do
      ensureMigrationsLedger c
      let got ← query c .getLock
      if got then
        (recordInTransaction rel c (first :: files)).always (query c .releaseLock).quietly
      else fail .lockTaken

def SHOW_TABLES : String := "SHOW TABLES"

/-- `verifyTables`; a connection whose `SHOW TABLES` fails is not given back. -/
def verifyTables (rel : Release) : Runner Unit := do
  let c ← lease
  let rows ← query c (.inspect SHOW_TABLES)
  let existing := rows.filterMap (fun row => row.head?.join)
  (do
    Job.when (isFreshSchema rel.sqlFiles existing = true) (recordFreshSchemaMigrations rel c)
    Job.forEach (fun file => query c (.verifyTable file))
      (rel.sqlFiles.filter (fun file => ".sql".toList <:+: file.toList)) : Runner Unit).always
    (release c).quietly

/-! ## Section 7: Processes -/

/-- What a process was started for. -/
inductive Launch where
  /-- a decoder that starts up: tables first, then the auto files -/
  | startup
  /-- `node src/db/migrate.js` -/
  | operator (only : Option (List String))

structure Process where
  release : Release
  launch  : Launch

def Process.options (p : Process) : RunOptions :=
  match p.launch with
  | .startup       => ⟨false, none⟩
  | .operator only => ⟨true, only⟩

def Process.job (p : Process) : Runner Unit :=
  match p.launch with
  | .startup    => do
      verifyTables p.release
      runMigrations p.release p.options
  | .operator _ => runMigrations p.release p.options

end XChainDecoder.Migrate
