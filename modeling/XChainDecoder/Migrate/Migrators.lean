import XChainDecoder.Migrate.Turns

/-! # Any number of migrators on one database

    Decoders that start up and operators that migrate run together on one server, each
    with its own release, in any order of their calls; sessions are lost and processes
    killed at any point.

    **Main theorems.** `Reachable.serial_journal`: the journal is one of processes that
    take turns. `Reachable.statement_in_order`: a statement is sent in the order of its
    file, and never while the ledger holds the file. `Reachable.applied_for_good`: the row
    of an applied file closes it. `Reachable.unattended_cleared`: a startup sends no
    statement that was not cleared for it. `Reachable.finished_settled`: what a whole run
    leaves is settled. `Reachable.pooled_clean`: a pooled connection carries nothing over. -/

namespace XChainDecoder.Migrate

variable {ι : Type}

/-! ## Section 1: Runs -/

theorem good_empty {key : NameKey} {procs : ι → Process} : (Server.empty ι).Good key procs where
  closed _ _   := rfl
  holder h hh  := by cases hh
  clean c i hi := by cases hi
  ledger       := rfl
  serial       := .start

variable [DecidableEq ι] (key : NameKey) (procs : ι → Process)

/-- The processes as far as they have come, on their server. -/
abbrev Migrators (ι : Type) : Type :=
  Prog.Threads ι Call Call.Answer (Except Failure Unit × Locals) (Server ι)

/-- Every process is still to start, on a database that no migrator has been at. -/
def Migrators.start : Migrators ι where
  threads i := some ((procs i).job Locals.start)
  state     := Server.empty ι

abbrev Migrators.Step : Migrators ι → Migrators ι → Prop :=
  Prog.Threads.Step (protocol key procs) (surroundings ι)

/-- The states of all runs. -/
def Migrators.Reachable (w : Migrators ι) : Prop :=
  Relation.ReflTransGen (Migrators.Step key procs) (Migrators.start procs) w

/-- What a process that has ended leaves true. -/
def Ended (i : ι) (x : Except Failure Unit × Locals) (s : Server ι) : Prop :=
  Job.Ends (fun _ l s => s.Good key procs ∧ Complete key procs i l s)
    (fun _ _ s => s.Good key procs) x.1 x.2 s

namespace Migrators

variable {key} {procs} {w w' : Migrators ι} {i : ι}

omit [DecidableEq ι] in
theorem keeps_start : (start procs).Keeps (protocol key procs) (Ended key procs) := by
  intro i p hp
  rw [← Option.some.inj hp]
  exact wp_job good_empty

/-- **Run lemma.** Later states are as everybody relies on, and have more in the journal. -/
theorem good_and_grows (h : w.Keeps (protocol key procs) (Ended key procs))
    (hgood : w.state.Good key procs)
    (hrun : Relation.ReflTransGen (Step key procs) w w') :
    w'.state.Good key procs ∧ w.state.journal <+: w'.state.journal := by
  have hrelated : Relation.ReflTransGen
      (fun s s' : Server ι => (s.Good key procs → s'.Good key procs) ∧ s.journal <+: s'.journal)
      w.state w'.state := by
    apply h.related compatible _ _ _ hrun
    -- a session that is lost, a process that is killed, a call of a process
    · rintro s s' ⟨c, rfl⟩
      exact ⟨fun hs => good_kill hs c, List.prefix_rfl⟩
    · intro i s s' hkill
      have hkill : s' = s.crash i := hkill
      subst hkill
      exact ⟨fun hs => good_crash hs i, List.prefix_rfl⟩
    · exact fun i s s' hg => ⟨hg.good, hg.grows⟩
  revert hrelated
  generalize w'.state = s'
  intro hrelated
  induction hrelated with
  | refl => exact ⟨hgood, List.prefix_rfl⟩
  | tail _ hstep ih => exact ⟨hstep.1 ih.1, ih.2.trans hstep.2⟩

namespace Reachable

theorem keeps (h : w.Reachable key procs) : w.Keeps (protocol key procs) (Ended key procs) :=
  keeps_start.run compatible h

theorem good (h : w.Reachable key procs) : w.state.Good key procs :=
  (good_and_grows keeps_start good_empty h).1

/-! ## Section 2: What holds in every state -/

/-- **Theorem.** However the processes ran, the journal is one of processes that take
    turns, and the ledger is what that journal writes. -/
theorem serial_journal (h : w.Reachable key procs) :
    Serial key procs w.state.journal ∧ w.state.ledger = replay key w.state.journal ∧
      key.Unique w.state.ledger := by
  have hgood := h.good
  refine ⟨hgood.serial, hgood.ledger, ?_⟩
  rw [hgood.ledger]
  exact unique_replay _

/-- **Theorem.** A statement is sent right behind the ones before it in its file, all by
    one process that may run the file, and not while the ledger holds the file. -/
theorem statement_in_order (h : w.Reachable key procs) {pre post : List (Entry ι)} {file : String}
    {text : List Char} (hjournal : w.state.journal = pre ++ .statement i file text :: post) :
    ∃ pre' before raw, pre = pre' ++ before.map (.statement i file) ∧
      before ++ [text] <+: splitSqlStatements raw ∧ (procs i).Clears file raw ∧
      file ∉ names (replay key pre) :=
  h.good.serial.statement_of_split hjournal

/-- **Theorem.** The row of an applied file stands right behind all statements of its
    text, and behind that row nobody runs or records the file again. -/
theorem applied_for_good (h : w.Reachable key procs) {pre post : List (Entry ι)} {row : LedgerRow}
    (hjournal : w.state.journal = pre ++ .wrote i (.apply row) :: post) :
    (∃ pre' raw, pre = pre' ++ (splitSqlStatements raw).map (.statement i row.name) ∧
      (procs i).Clears row.name raw ∧ row = (procs i).release.row row.name raw) ∧
    ∀ j, (∀ text, .statement j row.name text ∉ post) ∧
      ∀ row' : LedgerRow, row'.name = row.name → .wrote j (.apply row') ∉ post := by
  have hserial := h.good.serial
  obtain ⟨pre', raw, hpre, hclears, hrow, -⟩ := hserial.apply_of_split hjournal
  refine ⟨⟨pre', raw, hpre, hclears, hrow⟩, ?_⟩
  have hrecorded := hserial.recorded_of_apply hjournal
  have hsplit : w.state.journal = pre ++ [.wrote i (.apply row)] ++ post := by
    rw [hjournal, List.append_assoc]
    rfl
  rw [hsplit] at hserial
  exact hserial.settled hrecorded

/-- **Theorem.** The rows of a database built from empty are those of a whole directory,
    and they are all in the journal or none is. -/
theorem seeded_as_whole (h : w.Reachable key procs) {row : LedgerRow}
    (hrow : .wrote i (.ensure row) ∈ w.state.journal) :
    ∃ pre rows post, w.state.journal = pre ++ rows.map (fun r => .wrote i (.ensure r)) ++ post ∧
      row ∈ rows ∧ (procs i).release.Lists rows :=
  h.good.serial.ensure_of_mem hrow

/-- **Theorem.** A decoder that starts up sends no statement but one of an auto file that
    neither drops anything nor a key that src/sql declares. -/
theorem unattended_cleared (h : w.Reachable key procs) (hstartup : (procs i).launch = .startup)
    {file : String} {text : List Char} (hsent : .statement i file text ∈ w.state.journal) :
    ∃ raw, (procs i).release.read file = some raw ∧ text ∈ splitSqlStatements raw ∧
      (procs i).release.migrationMode raw = .auto ∧
      (procs i).release.destructiveAutoStatement (splitSqlStatements raw) = none ∧
      (procs i).release.declaredKeyDrop file (splitSqlStatements raw) = none := by
  obtain ⟨pre, post, hjournal⟩ := List.append_of_mem hsent
  obtain ⟨-, before, raw, -, hbefore, hclears, -⟩ := h.good.serial.statement_of_split hjournal
  -- a startup does not include the manual files
  have hauto : (procs i).release.migrationMode raw = .auto := by
    apply hclears.mode.resolve_left
    unfold Process.options
    rw [hstartup]
    exact Bool.false_ne_true
  obtain ⟨hdestructive, hdrop⟩ := hclears.auto hauto
  exact ⟨raw, hclears.read, hbefore.subset (by simp), hauto, hdestructive, hdrop⟩

/-- **Theorem.** When an operator's run over the whole tree has ended well, every file of
    the tree is in the ledger, and nobody runs one of them again. -/
theorem finished_settled (h : w.Reachable key procs) {l : Locals}
    (hended : w.threads i = some (.ret (.ok (), l))) (hwhole : (procs i).Whole)
    (hlock : l.lockSkipped = false) {files : List String}
    (hfiles : (procs i).release.files = some files) {file : String} (hfile : file ∈ files) :
    file ∈ names w.state.ledger ∧
      ∀ w', Relation.ReflTransGen (Step key procs) w w' →
        ∃ B, w'.state.journal = w.state.journal ++ B ∧ ∀ j text, .statement j file text ∉ B := by
  have hgood := h.good
  have hkeeps := h.keeps
  -- what the process leaves true at its end, from the terms it kept to
  obtain ⟨-, hcomplete⟩ := hkeeps i _ hended w.state .refl
  have hrecorded := hcomplete hwhole hlock files hfiles file hfile
  refine ⟨hgood.ledger ▸ hrecorded, ?_⟩
  intro w' hrun
  obtain ⟨hgood', B, hB⟩ := good_and_grows hkeeps hgood hrun
  have hserial := hgood'.serial
  rw [← hB] at hserial
  exact ⟨B, hB.symm, fun j => (hserial.settled hrecorded j).1⟩

/-- **Theorem.** A connection in a pool has the statement limit of its process, ran no
    statement of a migration file, and has no transaction open. -/
theorem pooled_clean (h : w.Reachable key procs) {c : ℕ} (hidle : (w.state.sessions c).lease = .idle i) :
    (w.state.sessions c).limit = (procs i).release.queryTimeout ∧
      (w.state.sessions c).dirty = false ∧ (w.state.sessions c).queue = none :=
  h.good.clean c i hidle

end Reachable

/-! ## Section 3: A run that can be computed -/

/-- What a living session is answered by a server that refuses what it has to and
    nothing else, and on which no table exists. -/
def reply (key : NameKey) (i : ι) (c : ℕ) (s : Server ι) : (q : Query) →
    Except Failure q.Value × Server ι
  | .sqlMode             => (.ok "STRICT_TRANS_TABLES", s)
  | .getLock             =>
      if s.holder.all (fun h => h.1 = c) then (.ok true, s.acquire c) else (.ok false, s)
  | .releaseLock         => (.ok (), s.unlock c)
  | .setStatementTime ms => (.ok (), s.setSession c { s.sessions c with limit := ms })
  | .inspect _           => (.ok [], s)
  | .createLedger        => (.ok (), s)
  | .retypeAppliedAt     => (.ok (), s)
  | .readLedger          => (.ok s.ledger, s)
  | .write w             =>
      match s.write key c i w with
      | some s' => (.ok (), s')
      | none    => (.error .database, s)
  | .execute file text   => (.ok (), s.send c i file text)
  | .startTransaction    => (.ok (), s.setSession c { s.sessions c with queue := some [] })
  | .commit              => (.ok (), s.commit key c i)
  | .rollback            => (.ok (), s.setSession c { s.sessions c with queue := none })
  | .verifyTable _       => (.ok (), s)

/-- The answer to any call; a lease gives connection `fresh`. -/
def serve (key : NameKey) (runtime : ι → ℕ) (i : ι) (fresh : ℕ) (s : Server ι) : (call : Call) →
    call.Answer × Server ι
  | .lease =>
      if (s.sessions fresh).lease = .idle i then
        (.ok fresh, s.setSession fresh { s.sessions fresh with lease := .leased i })
      else if (s.sessions fresh).lease = .closed then
        (.ok fresh, s.setSession fresh ⟨.leased i, true, runtime i, false, none⟩)
      else (.error .database, s)
  | .query c q =>
      if (s.sessions c).alive then reply key i c s q else (.error .database, s)
  | .release c =>
      if (s.sessions c).alive then
        (.ok (), s.setSession c { s.sessions c with lease := .idle i, queue := none })
      else (.ok (), (s.setSession c { s.sessions c with lease := .closed }).kill c)
  | .destroy c => (.ok (), (s.setSession c { s.sessions c with lease := .closed }).kill c)

omit [DecidableEq ι] in
theorem answers_reply {runtime : ι → ℕ} {c : ℕ} {s : Server ι}
    (halive : (s.sessions c).alive = true) (q : Query) :
    Answers key runtime i (.query c q) s (reply key i c s q).1 (reply key i c s q).2 := by
  cases q with
  | getLock =>
    simp only [reply]
    split
    · rename_i hfree
      refine .ran halive ⟨?_, rfl⟩
      intro h hh
      rw [Option.mem_def.mp hh] at hfree
      simpa using hfree
    · exact .ran halive rfl
  | write w =>
    cases hwrite : s.write key c i w with
    | none =>
      simp only [reply, hwrite]
      exact .refused _ _
    | some s' =>
      simp only [reply, hwrite]
      exact .ran halive hwrite
  | readLedger => exact .ran halive ⟨List.Perm.refl _, rfl⟩
  | _ => exact .ran halive rfl

theorem answers_serve {runtime : ι → ℕ} {fresh : ℕ} {s : Server ι} (call : Call) :
    Answers key runtime i call s (serve key runtime i fresh s call).1
      (serve key runtime i fresh s call).2 := by
  unfold serve
  cases call with
  | lease =>
    dsimp only
    split
    · rename_i hidle
      exact .reused hidle
    · split
      · rename_i hclosed
        exact .opened hclosed
      · exact .refused _ _
  | query c q =>
    dsimp only
    split
    · rename_i halive
      exact answers_reply halive q
    · exact .refused _ _
  | release c =>
    dsimp only
    split
    · rename_i halive
      exact .released halive
    · exact .dropped
  | destroy c => exact .destroyed

/-- The next call of a process, if it is still at work. -/
def advance (key : NameKey) (procs : ι → Process) (w : Migrators ι) (x : ι × ℕ) : Migrators ι :=
  match w.threads x.1 with
  | some (.call call k) =>
      let r := serve key (runtimeOf procs) x.1 x.2 w.state call
      ⟨Function.update w.threads x.1 (some (k r.1)), r.2⟩
  | _ => w

/-- A schedule: whose turn it is, and which connection a lease gives. -/
def play (key : NameKey) (procs : ι → Process) (schedule : List (ι × ℕ)) : Migrators ι :=
  schedule.foldl (advance key procs) (start procs)

theorem reachable_play (schedule : List (ι × ℕ)) : (play key procs schedule).Reachable key procs := by
  have hadvance : ∀ w x, Reachable key procs w → Reachable key procs (advance key procs w x) := by
    intro w x h
    unfold advance
    split
    · rename_i call k hthread
      exact h.tail (.call x.1 hthread (answers_serve call))
    · exact h
  have hrun : ∀ w, Reachable key procs w →
      Reachable key procs (schedule.foldl (advance key procs) w) := by
    induction schedule with
    | nil => exact fun w h => h
    | cons x schedule ih => exact fun w h => ih _ (hadvance w x h)
  exact hrun _ .refl

/-- What a process has come to. -/
def outcome (w : Migrators ι) (i : ι) : Option (Except Failure Unit × Locals) :=
  match w.threads i with
  | some (.ret x) => some x
  | _             => none

omit [DecidableEq ι] in
theorem thread_of_outcome {x : Except Failure Unit × Locals} (h : outcome w i = some x) :
    w.threads i = some (.ret x) := by
  unfold outcome at h
  split at h
  · rename_i x' hthread
    rw [hthread, Option.some.inj h]
  · cases h

end Migrators

/-! ## Section 4: Samples -/

namespace Sample

/-- A tree with one migration file. -/
def release (file text : String) (mode : MigrationMode) (sqlFiles : List String) : Release where
  entries                  := some [file]
  entries_nodup            := fun _ h => Option.some.inj h ▸ List.nodup_singleton file
  read                     := fun f => if f = file then some text.toList else none
  checksum                 := String.ofList
  migrationMode            := fun _ => mode
  destructiveAutoStatement := fun _ => none
  declaredKeyDrop          := fun _ _ => none
  assertNoLiveColumnLoss   := fun _ _ => .ret none
  assertUniqueKeyWitness   := fun _ _ => .ret none
  preconditions            := fun _ => none
  rebaselines              := fun _ => none
  strictChecksum           := false
  queryTimeout             := 30000
  migrateQueryTimeout      := 600000
  sqlFiles                 := sqlFiles
  assertions               := [("SHOW INDEX", fun _ => none)]

/-- A decoder on an empty database, an operator, and a decoder of a later release. -/
def migrators : Fin 3 → Process
  | 0 => ⟨release "2026-01-01-a.sql" "CREATE TABLE a(x INT);" .auto ["blocks.sql"], .startup⟩
  | 1 => ⟨release "2026-01-02-b.sql" "DROP TABLE a;CREATE TABLE a(y INT);" .manual [], .operator none⟩
  | 2 => ⟨release "2026-01-03-c.sql" "CREATE TABLE c(x INT);" .auto [], .startup⟩

def byName : NameKey := ⟨id⟩

def schedule : List (Fin 3 × ℕ) :=
  List.replicate 7 (0, 0) ++ List.replicate 4 (1, 1) ++ List.replicate 40 (0, 0) ++
    List.replicate 20 (1, 1) ++ List.replicate 40 (2, 2) ++ List.replicate 20 (1, 1)

def played : Migrators (Fin 3) := Migrators.play byName migrators schedule

theorem reachable_played : played.Reachable byName migrators := Migrators.reachable_play schedule

def a : LedgerRow := ⟨"2026-01-01-a.sql", "CREATE TABLE a(x INT);", .auto⟩

def b : LedgerRow := ⟨"2026-01-02-b.sql", "DROP TABLE a;CREATE TABLE a(y INT);", .manual⟩

def c : LedgerRow := ⟨"2026-01-03-c.sql", "CREATE TABLE c(x INT);", .auto⟩

/-- The operator came to the lock while the first decoder held it. -/
theorem serial_played : names played.state.ledger = [a.name, b.name, c.name] ∧
    Serial byName migrators played.state.journal ∧
      played.state.ledger = replay byName played.state.journal ∧ byName.Unique played.state.ledger :=
  ⟨by decide +kernel, reachable_played.serial_journal⟩

theorem statement_second : ∃ pre' before raw,
    [.wrote 0 (.ensure a), .statement 1 b.name "DROP TABLE a".toList] =
        pre' ++ before.map (Entry.statement (1 : Fin 3) b.name) ∧
      before ++ ["CREATE TABLE a(y INT)".toList] <+: splitSqlStatements raw ∧
      (migrators 1).Clears b.name raw ∧
      b.name ∉ names (replay byName
        [Entry.wrote (0 : Fin 3) (.ensure a), .statement 1 b.name "DROP TABLE a".toList]) := by
  have hjournal : played.state.journal =
      [.wrote 0 (.ensure a), .statement 1 b.name "DROP TABLE a".toList] ++
        .statement 1 b.name "CREATE TABLE a(y INT)".toList :: [.wrote 1 (.apply b),
          .statement 2 c.name "CREATE TABLE c(x INT)".toList, .wrote 2 (.apply c)] := by
    decide +kernel
  exact reachable_played.statement_in_order hjournal

theorem applied_second :
    (∃ pre' raw, played.state.journal.take 3 =
        pre' ++ (splitSqlStatements raw).map (Entry.statement (1 : Fin 3) b.name) ∧
      (migrators 1).Clears b.name raw ∧ b = (migrators 1).release.row b.name raw) ∧
    ∀ j : Fin 3, (∀ text, .statement j b.name text ∉ played.state.journal.drop 4) ∧
      ∀ row' : LedgerRow, row'.name = b.name →
        .wrote j (.apply row') ∉ played.state.journal.drop 4 := by
  have hjournal : played.state.journal =
      played.state.journal.take 3 ++ .wrote 1 (.apply b) :: played.state.journal.drop 4 := by
    decide +kernel
  exact reachable_played.applied_for_good hjournal

theorem seeded_first : ∃ pre rows post, played.state.journal =
      pre ++ rows.map (fun r => Entry.wrote (0 : Fin 3) (.ensure r)) ++ post ∧
    a ∈ rows ∧ (migrators 0).release.Lists rows :=
  reachable_played.seeded_as_whole (by decide +kernel)

theorem unattended_third : ∃ raw, (migrators 2).release.read c.name = some raw ∧
    "CREATE TABLE c(x INT)".toList ∈ splitSqlStatements raw ∧
    (migrators 2).release.migrationMode raw = .auto ∧
    (migrators 2).release.destructiveAutoStatement (splitSqlStatements raw) = none ∧
    (migrators 2).release.declaredKeyDrop c.name (splitSqlStatements raw) = none :=
  reachable_played.unattended_cleared rfl (by decide +kernel)

theorem finished_second : b.name ∈ names played.state.ledger ∧
    ∀ w', Relation.ReflTransGen (Migrators.Step byName migrators) played w' →
      ∃ B, w'.state.journal = played.state.journal ++ B ∧
        ∀ j text, .statement j b.name text ∉ B := by
  have hended : Migrators.outcome played 1 =
      some (.ok (), ⟨[b.name], [], [], false, true, true, true⟩) := by
    decide +kernel
  exact reachable_played.finished_settled (Migrators.thread_of_outcome hended) ⟨rfl, rfl⟩ rfl
    (by decide +kernel : (migrators 1).release.files = some [b.name]) List.mem_cons_self

theorem pooled_first : (played.state.sessions 0).limit = 30000 ∧
    (played.state.sessions 0).dirty = false ∧ (played.state.sessions 0).queue = none :=
  reachable_played.pooled_clean (i := 0) (by decide +kernel)

end Sample

end XChainDecoder.Migrate
