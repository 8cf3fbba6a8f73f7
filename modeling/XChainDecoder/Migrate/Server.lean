import XChainDecoder.Lib.Threads
import XChainDecoder.Migrate.Statements

/-! # The server the migrators share

    Every migrator of a database works on one server: the ledger `schema_migrations`,
    the advisory lock, and the sessions, of which a process leases some from its pool.
    `Answers` says how the server may answer a call. A statement may be refused, and a
    session may be lost with the statement done or not; a session that is gone takes
    its lock and its open transaction with it.

    The journal is no part of the database. It lists the statements of migration files
    that were sent, and the writes of the ledger. -/

namespace XChainDecoder.Migrate

/-! ## Section 1: The ledger -/

inductive MigrationMode where
  | auto
  | manual
deriving DecidableEq, Repr

structure LedgerRow where
  name     : String
  checksum : String
  mode     : MigrationMode
deriving DecidableEq, Repr

/-- A write of the ledger. -/
inductive Write where
  /-- the row of a file whose statements have run -/
  | apply (row : LedgerRow)
  /-- the row of a file that does not apply to this schema -/
  | baseline (row : LedgerRow)
  /-- the row of a file on a database built from empty, unless there is one -/
  | ensure (row : LedgerRow)
  | rebaseline (name checksum : String)
  | rekey (name name' : String)
deriving DecidableEq, Repr

/-- The collation of the name column. -/
structure NameKey where
  weight : String → String

variable (key : NameKey)

def NameKey.Holds (ledger : List LedgerRow) (name : String) : Prop :=
  ∃ r ∈ ledger, key.weight r.name = key.weight name

instance (ledger : List LedgerRow) (name : String) : Decidable (key.Holds ledger name) :=
  inferInstanceAs (Decidable (∃ r ∈ ledger, _))

/-- The ledger behind a write, `none` where its primary key refuses the row. -/
def Write.result (w : Write) (ledger : List LedgerRow) : Option (List LedgerRow) :=
  match w with
  | .apply row | .baseline row =>
      if key.Holds ledger row.name then none else some (ledger ++ [row])
  | .ensure row => some (if key.Holds ledger row.name then ledger else ledger ++ [row])
  | .rebaseline name checksum =>
      some (ledger.map (fun r =>
        if key.weight r.name = key.weight name then { r with checksum := checksum } else r))
  | .rekey name name' =>
      if ∃ r ∈ ledger, key.weight r.name ≠ key.weight name ∧ key.weight r.name = key.weight name' then
        none
      else some (ledger.map (fun r =>
        if key.weight r.name = key.weight name then { r with name := name' } else r))

/-- What a journal lists. -/
inductive Entry (ι : Type) where
  /-- a statement of a migration file was sent -/
  | statement (process : ι) (file : String) (text : List Char)
  | wrote (process : ι) (w : Write)
deriving DecidableEq, Repr

variable {ι : Type}

def Entry.onLedger (ledger : List LedgerRow) : Entry ι → List LedgerRow
  | .statement _ _ _ => ledger
  | .wrote _ w       => (w.result key ledger).getD ledger

/-- The ledger a journal has written. -/
def replay (journal : List (Entry ι)) : List LedgerRow :=
  journal.foldl (Entry.onLedger key) []

/-! ## Section 2: Sessions -/

/-- Who has a connection. -/
inductive Lease (ι : Type) where
  /-- there is no such connection -/
  | closed
  /-- it is in the pool of a process -/
  | idle (i : ι)
  | leased (i : ι)
deriving DecidableEq, Repr

structure Session (ι : Type) where
  lease : Lease ι
  /-- the server still has the session -/
  alive : Bool
  /-- `max_statement_time`, in ms -/
  limit : ℕ
  /-- a statement of a migration file was sent over it -/
  dirty : Bool
  /-- the writes of an open transaction -/
  queue : Option (List Write)
deriving DecidableEq, Repr

def Session.none : Session ι := ⟨.closed, false, 0, false, .none⟩

structure Server (ι : Type) where
  sessions : ℕ → Session ι
  /-- the session that holds the advisory lock, and how many times over -/
  holder   : Option (ℕ × ℕ)
  ledger   : List LedgerRow
  journal  : List (Entry ι)

namespace Server

variable (s : Server ι) (c : ℕ)

def setSession (x : Session ι) : Server ι :=
  { s with sessions := Function.update s.sessions c x }

/-- The session is the holder of the lock. -/
def Held : Prop := ∃ depth, s.holder = some (c, depth)

def unlock : Server ι :=
  match s.holder with
  | some (h, depth) =>
      -- as often as it was taken
      if h = c then { s with holder := if depth ≤ 1 then none else some (c, depth - 1) } else s
  | none => s

def acquire : Server ι :=
  match s.holder with
  -- the lock is re-entrant; only a holder comes here
  | some (_, depth) => { s with holder := some (c, depth + 1) }
  | none            => { s with holder := some (c, 1) }

/-- The session ends on the server. -/
def kill : Server ι where
  sessions := Function.update s.sessions c { s.sessions c with alive := false }
  holder   := s.holder.filter (fun h => h.1 ≠ c)
  ledger   := s.ledger
  journal  := s.journal

/-- A connection of process `i`, leased or in its pool. -/
def Owns (i : ι) : Prop := (s.sessions c).lease = .idle i ∨ (s.sessions c).lease = .leased i

instance [DecidableEq ι] (i : ι) : Decidable (s.Owns c i) := inferInstanceAs (Decidable (_ ∨ _))

/-- All sessions of a process end. -/
def crash [DecidableEq ι] (i : ι) : Server ι where
  sessions := fun c => if s.Owns c i then { s.sessions c with alive := false } else s.sessions c
  holder   := s.holder.filter (fun h => ¬s.Owns h.1 i)
  ledger   := s.ledger
  journal  := s.journal

def perform (i : ι) (w : Write) : Option (Server ι) :=
  (w.result key s.ledger).map (fun ledger =>
    { s with ledger := ledger, journal := s.journal ++ [.wrote i w] })

/-- A write, at once or in the open transaction. -/
def write (i : ι) (w : Write) : Option (Server ι) :=
  match (s.sessions c).queue with
  | .none    => s.perform key i w
  | .some ws => .some (s.setSession c { s.sessions c with queue := .some (ws ++ [w]) })

def performAll (i : ι) (ws : List Write) : Server ι :=
  ws.foldl (fun s w => (s.perform key i w).getD s) s

def commit (i : ι) : Server ι :=
  let s' := s.performAll key i ((s.sessions c).queue.getD [])
  s'.setSession c { s.sessions c with queue := .none }

/-- The statement of a file is sent: whatever comes of it, it is on record. -/
def send (i : ι) (file : String) (text : List Char) : Server ι :=
  { s.setSession c { s.sessions c with dirty := true } with
    journal := s.journal ++ [.statement i file text] }

end Server

/-! ## Section 3: Calls -/

/-- Rows of information_schema, by column. -/
abbrev Rows : Type := List (List (Option String))

/-- What is sent over a connection. -/
inductive Query where
  | sqlMode
  /-- `SELECT GET_LOCK(?, 30)` -/
  | getLock
  | releaseLock
  | setStatementTime (ms : ℕ)
  /-- a SELECT on information_schema, or `SHOW TABLES` -/
  | inspect (sql : String)
  | createLedger
  | retypeAppliedAt
  /-- `SELECT name, checksum FROM schema_migrations` -/
  | readLedger
  | write (w : Write)
  | execute (file : String) (text : List Char)
  | startTransaction
  | commit
  | rollback
  /-- `createTable`, or `alterTableForDrift` and `reconcileTableIndexes` -/
  | verifyTable (file : String)
deriving DecidableEq, Repr

@[reducible] def Query.Value : Query → Type
  | .sqlMode    => String
  | .getLock    => Bool
  | .inspect _  => Rows
  | .readLedger => List LedgerRow
  | _           => Unit

inductive Call where
  /-- `this.getConnection()` -/
  | lease
  | query (c : ℕ) (q : Query)
  /-- `conn.release()` -/
  | release (c : ℕ)
  /-- `conn.destroy()` -/
  | destroy (c : ℕ)
deriving DecidableEq, Repr

@[reducible] def Call.Value : Call → Type
  | .lease     => ℕ
  | .query _ q => q.Value
  | _          => Unit

/-- What a run of the migrations fails with. -/
inductive Failure where
  /-- an error of the driver or of the server -/
  | database
  | laxSqlMode (mode : String)
  | lockTaken
  | emptyTargets
  | unknownTargets (names : List String)
  | undated (file : String)
  | unreadable (file : String)
  | contentChanged (file : String) (recorded : Option String) (current : String)
  | unregisteredRename (file old : String)
  | backdated (file frontier : String)
  | destructive (file : String) (statement : List Char)
  /-- what one of the other guards of an auto file says -/
  | guarded (file message : String)
  /-- what one of the schema assertions says -/
  | asserted (message : String)
deriving DecidableEq, Repr

/-- The answer to a call: a value or an error. -/
abbrev Call.Answer (call : Call) : Type := Except Failure call.Value

/-- What a statement that succeeds answers and does. -/
def Runs (i : ι) (c : ℕ) (s : Server ι) : (q : Query) → q.Value → Server ι → Prop
  | .sqlMode,             _,    s' => s' = s
  | .getLock,             got,  s' =>
      if got then (∀ h ∈ s.holder, h.1 = c) ∧ s' = s.acquire c else s' = s
  | .releaseLock,         _,    s' => s' = s.unlock c
  | .setStatementTime ms, _,    s' => s' = s.setSession c { s.sessions c with limit := ms }
  | .inspect _,           _,    s' => s' = s
  | .createLedger,        _,    s' => s' = s
  | .retypeAppliedAt,     _,    s' => s' = s
  | .readLedger,          rows, s' => rows.Perm s.ledger ∧ s' = s
  | .write w,             _,    s' => s.write key c i w = some s'
  | .execute file text,   _,    s' => s' = s.send c i file text
  | .startTransaction,    _,    s' => s' = s.setSession c { s.sessions c with queue := some [] }
  | .commit,              _,    s' => s' = s.commit key c i
  | .rollback,            _,    s' => s' = s.setSession c { s.sessions c with queue := none }
  | .verifyTable _,       _,    s' => s' = s

/-- How a call of process `i` may be answered; `runtime i` is the statement limit its
    pool sets on a new session. -/
inductive Answers (runtime : ι → ℕ) (i : ι) :
    (call : Call) → Server ι → call.Answer → Server ι → Prop where
  | reused {s : Server ι} {c : ℕ} (hidle : (s.sessions c).lease = .idle i) :
      Answers runtime i .lease s (.ok c)
        (s.setSession c { s.sessions c with lease := .leased i })
  | opened {s : Server ι} {c : ℕ} (hclosed : (s.sessions c).lease = .closed) :
      Answers runtime i .lease s (.ok c)
        (s.setSession c ⟨.leased i, true, runtime i, false, none⟩)
  | ran {s s' : Server ι} {c : ℕ} {q : Query} {v : q.Value} (halive : (s.sessions c).alive = true)
      (hruns : Runs key i c s q v s') : Answers runtime i (.query c q) s (.ok v) s'
  /-- an error, and the statement has done nothing -/
  | refused {s : Server ι} (call : Call) (e : Failure) : Answers runtime i call s (.error e) s
  /-- an error in the middle of a statement of a file -/
  | halfway {s : Server ι} {c : ℕ} (file : String) (text : List Char)
      (halive : (s.sessions c).alive = true) (e : Failure) :
      Answers runtime i (.query c (.execute file text)) s (.error e) (s.send c i file text)
  /-- the session is lost once the statement is done -/
  | lost {s s' : Server ι} {c : ℕ} {q : Query} {v : q.Value} (halive : (s.sessions c).alive = true)
      (hruns : Runs key i c s q v s') (e : Failure) :
      Answers runtime i (.query c q) s (.error e) (s'.kill c)
  /-- a connection goes back to the pool, which rolls an open transaction back -/
  | released {s : Server ι} {c : ℕ} (halive : (s.sessions c).alive = true) :
      Answers runtime i (.release c) s (.ok ())
        (s.setSession c { s.sessions c with lease := .idle i, queue := none })
  /-- the pool drops a dead one -/
  | dropped {s : Server ι} {c : ℕ} :
      Answers runtime i (.release c) s (.ok ())
        ((s.setSession c { s.sessions c with lease := .closed }).kill c)
  | destroyed {s : Server ι} {c : ℕ} :
      Answers runtime i (.destroy c) s (.ok ())
        ((s.setSession c { s.sessions c with lease := .closed }).kill c)

/-- The surroundings end a session, and a process that is killed loses all of its own. -/
def surroundings (ι : Type) [DecidableEq ι] : Prog.Surroundings ι (Server ι) where
  moves s s'   := ∃ c, s' = s.kill c
  kills i s s' := s' = s.crash i

/-- A server that no migrator has been at. -/
def Server.empty (ι : Type) : Server ι := ⟨fun _ => Session.none, none, [], []⟩

end XChainDecoder.Migrate
