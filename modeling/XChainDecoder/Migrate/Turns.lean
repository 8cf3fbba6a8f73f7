import XChainDecoder.Migrate.Protocol

/-! # A run takes turns

    The runner under the terms of `protocol`, one function after the other. While it
    holds the lock it knows the journal; each file it processes is a turn or less, and
    leaves the rows of the other files as they were when the ledger was read.

    **Main theorem.** `wp_job`. -/

namespace XChainDecoder.Migrate

variable {ι : Type} {key : NameKey} {procs : ι → Process} {i : ι} {c : ℕ} {s : Server ι} {l : Locals}
  {J : List (Entry ι)}

/-! ## Section 1: The state of a run -/

/-- What is known of the connection where nothing is known of the journal. -/
def Left (key : NameKey) (procs : ι → Process) (i : ι) (c : ℕ) (l : Locals) (s : Server ι) : Prop :=
  Mine key procs i c l.touched l.sessionDirty s

/-- The connection holds the lock, no transaction is open, and `J` is the journal. -/
def Under (key : NameKey) (procs : ι → Process) (i : ι) (c : ℕ) (J : List (Entry ι)) (l : Locals)
    (s : Server ι) : Prop :=
  At key procs i c l.touched l.sessionDirty none (some J) s

theorem stable_left : (protocol key procs i).Stable (Left key procs i c l) := stable_mine

theorem stable_under : (protocol key procs i).Stable (Under key procs i c J l) := stable_at

/-- A query that leaves the variables alone, in the terms of a run. -/
theorem Under.quiet {q : Query} (hquiet : q.IsQuiet) (h : Under key procs i c J l s) :
    (query c q).Wp (protocol key procs i) l
      (Job.Ends (fun _ l' s' => l' = l ∧ Under key procs i c J l s')
        (fun _ => Left key procs i c)) s := by
  apply (wp_quiet hquiet stable_at (fun s hs => hs.toMine) h).ends
  · exact fun v l' s' hr => hr
  · rintro e l' s' ⟨rfl, he⟩
    exact he

/-- Variables that tell nothing of the connection. -/
theorem wp_note {f : Locals → Locals} (htouched : ∀ l, (f l).touched = l.touched)
    (hdirty : ∀ l, (f l).sessionDirty = l.sessionDirty) (h : Under key procs i c J l s) :
    (Job.update f : Runner Unit).Wp (protocol key procs i) l
      (Job.Ends (fun _ l' s' => l' = f l ∧ Under key procs i c J l' s')
        (fun _ => Left key procs i c)) s := by
  have hup : Under key procs i c J (f l) s := by
    unfold Under
    rw [htouched, hdirty]
    exact h
  exact Job.wp_update stable_under.known ⟨rfl, hup⟩

theorem Under.left (h : Under key procs i c J l s) : Left key procs i c l s := h.toMine

theorem wp_fail {α : Type} (e : Failure) (h : Under key procs i c J l s)
    {ok : α → Locals → Server ι → Prop} :
    (fail e : Runner α).Wp (protocol key procs i) l (Job.Ends ok (fun _ => Left key procs i c)) s :=
  Job.wp_stop stable_left h.left

theorem wp_activate (rel : Release) (h : Under key procs i c J l s) :
    (activate rel c).Wp (protocol key procs i) l
      (Job.Ends (fun _ l' s' => l' = { l with touched := true } ∧ Under key procs i c J l' s')
        (fun _ => Left key procs i c)) s := by
  unfold activate
  apply Job.wp_bind
  apply Job.wp_locals
  · exact fun s s' hr hs => hs.relies (.single hr)
  show Job.Wp _ (if l.touched = true then _ else _) _ _ _
  split
  -- the limit was raised before
  · rename_i htouched
    have hl : l = { l with touched := true } := by rw [← htouched]
    exact Job.wp_done stable_under.known ⟨hl, h⟩
  -- from here on nobody may count on the limit, whether the statement that raises it
  -- arrives or not
  · have hraised : At key procs i c true l.sessionDirty none (some J) s :=
      ⟨h.toMine.weaken (fun _ => rfl) id, h.queue, h.past, h.held⟩
    apply Job.wp_bind
    apply Job.wp_update
    · exact fun s s' hr hs => hs.relies (.single hr)
    show Job.Wp _ (query c _) { l with touched := true } _ _
    apply (wp_raise _ hraised).ends
    · rintro v l' s' ⟨rfl, hr⟩
      exact ⟨rfl, hr⟩
    · rintro e l' s' ⟨rfl, he⟩
      exact he

theorem wp_inspect (check : Inspection) :
    ∀ {l : Locals} {s : Server ι}, Under key procs i c J l s →
    (inspect c check).Wp (protocol key procs i) l
      (Job.Ends (fun _ l' s' => l' = l ∧ Under key procs i c J l s')
        (fun _ => Left key procs i c)) s := by
  induction check with
  | ret message =>
    intro l s h
    exact Job.wp_done stable_under.known ⟨rfl, h⟩
  | call sql k ih =>
    intro l s h
    unfold inspect
    apply (h.quiet (q := .inspect sql) trivial).bind
    · intro rows l' s' hr
      obtain ⟨rfl, hr⟩ := hr
      exact ih rows hr
    · exact fun e l' s' he => he

theorem wp_throwMessage (f : String → Failure) (message : Option String)
    (h : Under key procs i c J l s) :
    (throwMessage f message).Wp (protocol key procs i) l
      (Job.Ends (fun _ l' s' => l' = l ∧ message = none ∧ Under key procs i c J l s')
        (fun _ => Left key procs i c)) s := by
  cases message with
  | none =>
    exact Job.wp_done stable_under.known.known ⟨rfl, rfl, h⟩
  | some m => exact wp_fail _ h

/-! ## Section 2: One file -/

theorem wp_guardAutoFile (rel : Release) (file : String) (statements : List (List Char))
    (h : Under key procs i c J l s) :
    (guardAutoFile rel c file statements).Wp (protocol key procs i) l
      (Job.Ends (fun _ l' s' => l' = l ∧ (rel.destructiveAutoStatement statements = none ∧
          rel.declaredKeyDrop file statements = none) ∧ Under key procs i c J l s')
        (fun _ => Left key procs i c)) s := by
  unfold guardAutoFile
  cases hdestructive : rel.destructiveAutoStatement statements with
  | some offender => exact wp_fail _ h
  | none =>
    apply (wp_throwMessage (.guarded file) _ h).bind _ (fun e l' s' he => he)
    -- the other two guards look at the data; what they find is not needed
    rintro _ l₁ s₁ ⟨rfl, hdrop, h₁⟩
    apply (wp_inspect _ h₁).bind _ (fun e l' s' he => he)
    rintro loss l₂ s₂ ⟨rfl, h₂⟩
    apply (wp_throwMessage (.guarded file) loss h₂).bind _ (fun e l' s' he => he)
    rintro _ l₃ s₃ ⟨rfl, -, h₃⟩
    apply (wp_inspect _ h₃).bind _ (fun e l' s' he => he)
    rintro witness l₄ s₄ ⟨rfl, h₄⟩
    apply (wp_throwMessage (.guarded file) witness h₄).ends _ (fun e l' s' he => he)
    rintro _ l₅ s₅ ⟨rfl, -, h₅⟩
    exact ⟨rfl, ⟨rfl, hdrop⟩, h₅⟩

/-- What a turn on one file leaves of the ledger. -/
structure Turn (key : NameKey) (procs : ι → Process) (file : String) (J J' : List (Entry ι)) : Prop where
  serial : Serial key procs J'
  /-- the rows of other files are the same -/
  others : ∀ row : LedgerRow, row.name ≠ file → (row ∈ replay key J ↔ row ∈ replay key J')

theorem Turn.stay (h : Serial key procs J) (file : String) : Turn key procs file J J :=
  ⟨h, fun _ _ => Iff.rfl⟩

/-- A run behind a turn on a file, or behind none, with the facts `known` of its journal. -/
def After (key : NameKey) (procs : ι → Process) (i : ι) (c : ℕ) (file : String) (J : List (Entry ι))
    (l : Locals) (known : List (Entry ι) → Prop) (l' : Locals) (s' : Server ι) : Prop :=
  ∃ J', Turn key procs file J J' ∧ known J' ∧ Under key procs i c J' l' s' ∧
    l'.lockSkipped = l.lockSkipped

theorem stable_after {file : String} {known : List (Entry ι) → Prop} {l' : Locals} :
    (protocol key procs i).Stable (After key procs i c file J l known l') := by
  rintro s s' hr ⟨J', hturn, hknown, hup, hskipped⟩
  exact ⟨J', hturn, hknown, stable_under s s' hr hup, hskipped⟩

theorem others_append {L : List LedgerRow} {row row' : LedgerRow} (hne : row'.name ≠ row.name) :
    row' ∈ L ↔ row' ∈ L ++ [row] := by
  rw [List.mem_append, List.mem_singleton]
  constructor
  · exact .inl
  · rintro (hmem | rfl)
    · exact hmem
    · exact absurd rfl hne

/-- A row that is inserted behind entries that left the ledger alone. -/
theorem turn_insert {J' : List (Entry ι)} {w : Write} {row : LedgerRow} {L : List LedgerRow}
    (hw : w = .apply row ∨ w = .baseline row) (hsame : replay key J' = replay key J)
    (hL : w.result key (replay key J') = some L) (hserial : Serial key procs (J' ++ [.wrote i w])) :
    Turn key procs row.name J (J' ++ [.wrote i w]) ∧
      row.name ∈ names (replay key (J' ++ [.wrote i w])) := by
  have hledger : replay key (J' ++ [.wrote i w]) = replay key J ++ [row] := by
    rw [replay_wrote, hL, Option.getD_some, (Write.result_insert hw hL).2, hsame]
  refine ⟨⟨hserial, ?_⟩, ?_⟩
  · intro row' hne
    rw [hledger]
    exact others_append hne
  · rw [hledger]
    simp [names]

/-- Healing the checksum of a row touches no other row. -/
theorem others_rebaseline {L : List LedgerRow} (hunique : key.Unique L) {file checksum : String}
    (hrow : ∃ row ∈ L, row.name = file) {row : LedgerRow} (hne : row.name ≠ file) :
    row ∈ L ↔ row ∈ L.map (fun r =>
      if key.weight r.name = key.weight file then { r with checksum := checksum } else r) := by
  obtain ⟨owner, howner, rfl⟩ := hrow
  rw [List.mem_map]
  constructor
  · intro hmem
    have hkey : key.weight row.name ≠ key.weight owner.name :=
      fun heq => hne (congrArg LedgerRow.name (hunique.eq hmem howner heq))
    exact ⟨row, hmem, if_neg hkey⟩
  -- one key has one row, so a healed row is the row of the file
  · rintro ⟨r, hr, rfl⟩
    by_cases hkey : key.weight r.name = key.weight owner.name
    · rw [if_pos hkey] at hne
      exact absurd (congrArg LedgerRow.name (hunique.eq hr howner hkey)) hne
    · rw [if_neg hkey]
      exact hr

variable {rel : Release} {ctx : Context} {file : String} {raw : List Char} {mode : MigrationMode}

/-- A file that is applied is applied as a whole. -/
theorem wp_applyMigrationFile (hrel : rel = (procs i).release) (hmode : mode = rel.migrationMode raw)
    (hserial : Serial key procs J) (hnew : file ∉ names (replay key J))
    (hclears : (rel.migrationMode raw = .auto →
      rel.destructiveAutoStatement (splitSqlStatements raw) = none ∧
        rel.declaredKeyDrop file (splitSqlStatements raw) = none) → (procs i).Clears file raw)
    (hconn : ctx.conn = c) (h : Under key procs i c J l s) :
    (applyMigrationFile rel ctx file raw mode).Wp (protocol key procs i) l
      (Job.Ends (fun _ => After key procs i c file J l (fun J' => file ∈ names (replay key J')))
        (fun _ => Left key procs i c)) s := by
  subst hrel hmode hconn
  unfold applyMigrationFile
  have hguard : (Job.when ((procs i).release.migrationMode raw = .auto)
      (guardAutoFile (procs i).release ctx.conn file (splitSqlStatements raw)) : Runner Unit).Wp
      (protocol key procs i) l (Job.Ends (fun _ l' s' => l' = l ∧ (procs i).Clears file raw ∧
        Under key procs i ctx.conn J l s') (fun _ => Left key procs i ctx.conn)) s := by
    apply Job.wp_when
    · exact stable_under.known.known
    · intro hauto
      apply (wp_guardAutoFile _ file _ h).ends _ (fun e l' s' he => he)
      rintro _ l' s' ⟨hl, hguards, hup⟩
      exact ⟨hl, hclears (fun _ => hguards), hup⟩
    · exact fun hmanual => ⟨rfl, hclears (fun hauto => absurd hauto hmanual), h⟩
  -- only a file the guards let pass goes on
  apply hguard.bind _ (fun e l' s' he => he)
  rintro _ l₁ s₁ ⟨rfl, hclears, h₁⟩
  apply (wp_activate _ h₁).bind _ (fun e l' s' he => he)
  rintro _ l₂ s₂ ⟨rfl, h₂⟩
  -- from here on the connection may have run a statement of the file
  apply Job.wp_bind
  apply Job.wp_update
  · exact fun s s' hr hs => hs.relies (.single hr)
  have h₃ : Under key procs i ctx.conn J { l₁ with touched := true, sessionDirty := true } s₂ :=
    ⟨h₂.toMine.weaken id (fun _ => rfl), h₂.queue, h₂.past, h₂.held⟩
  -- the journal ends with the statements sent so far
  have hloop := Job.wp_forEach (π := protocol key procs i)
    (f := fun text => query ctx.conn (.execute file text))
    (I := fun texts l' s' => l' = { l₁ with touched := true, sessionDirty := true } ∧
      Under key procs i ctx.conn (J ++ texts.map (.statement i file)) l' s')
    (E := fun _ => Left key procs i ctx.conn) (x := splitSqlStatements raw)
    (l := { l₁ with touched := true, sessionDirty := true }) (s := s₂)
    (fun _ _ => stable_under.known) ?_ ⟨rfl, by simpa using h₃⟩
  · apply hloop.bind _ (fun e l' s' he => he)
    rintro _ l₄ s₄ ⟨rfl, h₄⟩
    have hsame : replay key (J ++ (splitSqlStatements raw).map (.statement i file)) = replay key J :=
      replay_statements J i file _
    -- the row that closes the turn, if the table takes it
    have hturn : ∀ L, (Write.apply ((procs i).release.row file raw)).result key
        (replay key (J ++ (splitSqlStatements raw).map (.statement i file))) = some L →
        Serial key procs (J ++ (splitSqlStatements raw).map (.statement i file) ++
          [.wrote i (.apply ((procs i).release.row file raw))]) := by
      intro L hL
      rw [List.append_assoc]
      rw [hsame] at hL
      exact Serial.apply i hserial hclears (Write.result_insert (.inl rfl) hL).1
    apply (wp_write _ hturn h₄).bind
    · rintro _ l₅ s₅ ⟨rfl, ⟨L, hL⟩, h₅⟩
      obtain ⟨hdone, hmem⟩ := turn_insert (.inl rfl) hsame hL (hturn L hL)
      have hup := wp_note (f := fun l => { l with applied := l.applied ++ [file] })
        (fun _ => rfl) (fun _ => rfl) h₅
      apply hup.ends _ (fun e l' s' he => he)
      rintro _ l' s' ⟨rfl, h'⟩
      exact ⟨_, hdone, hmem, h', rfl⟩
    · rintro e l' s' ⟨rfl, he⟩
      exact he
  · rintro texts text rest l' s' hsplit ⟨rfl, h'⟩
    -- the next statement makes the turn one longer, also when it fails
    have hbegun : texts ++ [text] <+: splitSqlStatements raw :=
      ⟨rest, by rw [hsplit, List.append_assoc]; rfl⟩
    have hattempt := Serial.attempt i hserial hclears hnew hbegun
    rw [List.map_append, ← List.append_assoc] at hattempt
    apply (wp_execute hattempt h').ends
    · rintro _ l'' s'' ⟨rfl, h''⟩
      refine ⟨rfl, ?_⟩
      rw [List.map_append, ← List.append_assoc]
      exact h''
    · rintro e l'' s'' ⟨rfl, he⟩
      exact he

/-- What the choice of a mode tells: without one an operator's file is recorded. -/
def Chosen (key : NameKey) (rel : Release) (ctx : Context) (file : String) (raw : List Char)
    (J : List (Entry ι)) : Option MigrationMode → List (Entry ι) → Prop
  | none,      J' => ctx.includeManual = true → file ∈ names (replay key J')
  | some mode, J' => mode = rel.migrationMode raw ∧ J' = J ∧ (ctx.includeManual = true ∨ mode = .auto)

/-- The row of a file that does not apply is written, or its statements may run. -/
theorem wp_migrationModeOrSkip (hrel : rel = (procs i).release) (hserial : Serial key procs J)
    (hread : rel.read file = some raw)
    (hconn : ctx.conn = c) (h : Under key procs i c J l s) :
    (migrationModeOrSkip rel ctx file raw).Wp (protocol key procs i) l
      (Job.Ends (fun mode => After key procs i c file J l (Chosen key rel ctx file raw J mode))
        (fun _ => Left key procs i c)) s := by
  subst hrel hconn
  have hstay := Turn.stay hserial file
  unfold migrationModeOrSkip
  have hskip : (migrationPreconditionSkip (procs i).release ctx.conn file).Wp (protocol key procs i) l
      (Job.Ends (fun skip l' s' => l' = l ∧ (skip.isSome = true →
          ((procs i).release.preconditions file).isSome = true) ∧ Under key procs i ctx.conn J l s')
        (fun _ => Left key procs i ctx.conn)) s := by
    unfold migrationPreconditionSkip
    cases hpre : (procs i).release.preconditions file with
    | none =>
      exact Job.wp_done stable_under.known.known
        ⟨rfl, (fun hnone => by cases hnone), h⟩
    | some pre =>
      apply (h.quiet (q := .inspect pre.1) trivial).bind _ (fun e l' s' he => he)
      rintro rows l' s' ⟨rfl, h'⟩
      exact Job.wp_done stable_under.known.known
        ⟨rfl, fun _ => rfl, h'⟩
  apply hskip.bind _ (fun e l' s' he => he)
  rintro skip l₁ s₁ ⟨rfl, hpre, h₁⟩
  split
  -- the file does not apply here: its row alone is the turn
  · rename_i hsome
    have hturn : ∀ L, (Write.baseline ((procs i).release.row file raw)).result key
        (replay key J) = some L →
        Serial key procs (J ++ [.wrote i (.baseline ((procs i).release.row file raw))]) :=
      fun L hL => .baseline i hserial hread (hpre hsome) (Write.result_insert (.inr rfl) hL).1
    apply (wp_write _ hturn h₁).bind
    · rintro _ l₂ s₂ ⟨rfl, ⟨L, hL⟩, h₂⟩
      obtain ⟨hdone, hmem⟩ := turn_insert (.inr rfl) rfl hL (hturn L hL)
      have hup := wp_note (f := fun l => { l with baselined := l.baselined ++ [file] })
        (fun _ => rfl) (fun _ => rfl) h₂
      apply hup.bind _ (fun e l' s' he => he)
      rintro _ l₃ s₃ ⟨rfl, h₃⟩
      exact Job.wp_done stable_after ⟨_, hdone, fun _ => hmem, h₃, rfl⟩
    · rintro e l' s' ⟨rfl, he⟩
      exact he
  · split
    -- left to an operator
    · rename_i hmanual
      have hup := wp_note (f := fun l => { l with pending := l.pending ++ [file] })
        (fun _ => rfl) (fun _ => rfl) h₁
      apply hup.bind _ (fun e l' s' he => he)
      rintro _ l₂ s₂ ⟨rfl, h₂⟩
      exact Job.wp_done stable_after
        ⟨J, hstay, fun hinclude => absurd hinclude hmanual.2, h₂, rfl⟩
    · rename_i hauto
      refine Job.wp_done stable_after ⟨J, hstay, ⟨rfl, rfl, ?_⟩, h₁, rfl⟩
      by_cases hinclude : ctx.includeManual = true
      · exact .inl hinclude
      · exact .inr (by_contra fun hne => hauto ⟨hne, hinclude⟩)

/-- What the ledger said of a file at the start of the run still stands. -/
structure Seen (key : NameKey) (ctx : Context) (file : String) (J : List (Entry ι)) : Prop where
  absent  : ctx.appliedByName.lookup file = none → file ∉ names (replay key J)
  present : ∀ recorded, ctx.appliedByName.lookup file = some recorded →
    ∃ row ∈ replay key J, row.name = file ∧ row.checksum = recorded

/-- A turn on another file leaves it standing. -/
theorem Seen.turn {file' : String} {J' : List (Entry ι)} (h : Seen key ctx file J) (hne : file ≠ file')
    (hturn : Turn key procs file' J J') : Seen key ctx file J' := by
  constructor
  · intro hnone hmem
    obtain ⟨row, hrow, hname⟩ := List.mem_map.mp hmem
    exact h.absent hnone (List.mem_map.mpr
      ⟨row, (hturn.others row (fun heq => hne (hname.symm.trans heq))).mpr hrow, hname⟩)
  · intro recorded hsome
    obtain ⟨row, hrow, hname, hchecksum⟩ := h.present recorded hsome
    exact ⟨row, (hturn.others row (fun heq => hne (hname.symm.trans heq))).mp hrow, hname, hchecksum⟩

theorem Seen.mem (h : Seen key ctx file J) (hsome : (ctx.appliedByName.lookup file).isSome = true) :
    file ∈ names (replay key J) := by
  obtain ⟨recorded, hrecorded⟩ := Option.isSome_iff_exists.mp hsome
  obtain ⟨row, hrow, hname, -⟩ := h.present recorded hrecorded
  exact List.mem_map.mpr ⟨row, hrow, hname⟩

/-- An applied file is left alone, but for a pinned edit. -/
theorem wp_reconcile {checksum : String} (hrel : rel = (procs i).release) (hserial : Serial key procs J)
    (hseen : Seen key ctx file J) (hsome : (ctx.appliedByName.lookup file).isSome = true)
    (hconn : ctx.conn = c) (h : Under key procs i c J l s) :
    (reconcileAppliedMigration rel ctx file checksum).Wp (protocol key procs i) l
      (Job.Ends (fun done l' s' => done = true ∧
          After key procs i c file J l (fun J' => file ∈ names (replay key J')) l' s')
        (fun _ => Left key procs i c)) s := by
  subst hrel hconn
  have hmem := hseen.mem hsome
  have hstay : ∀ {l : Locals}, Under key procs i ctx.conn J l s →
      (pure true : Runner Bool).Wp (protocol key procs i) l
        (Job.Ends (fun done l' s' => done = true ∧
          After key procs i ctx.conn file J l (fun J' => file ∈ names (replay key J')) l' s')
        (fun _ => Left key procs i ctx.conn)) s := by
    intro l h
    exact Job.wp_done stable_after.known
      ⟨rfl, J, Turn.stay hserial file, hmem, h, rfl⟩
  unfold reconcileAppliedMigration
  obtain ⟨recorded, hrecorded⟩ := Option.isSome_iff_exists.mp hsome
  simp only [hrecorded]
  split
  · exact hstay h
  · split
    -- a pinned edit: the row of the ledger is the one that was read, so the turn is a
    -- rebaseline of what stands there
    · rename_i hpinned
      obtain ⟨row, hrow, hname, hchecksum⟩ := hseen.present recorded hrecorded
      have hturn := Serial.rebaseline i hserial ⟨row, hrow, hname, hchecksum⟩ hpinned
      apply (wp_write _ (fun _ _ => hturn) h).bind
      · rintro _ l₁ s₁ ⟨rfl, ⟨L, hL⟩, h₁⟩
        refine Job.wp_done stable_after.known
          ⟨rfl, _, ⟨hturn, ?_⟩, (hturn.names_replay).subset hmem, h₁, rfl⟩
        intro row' hne
        rw [replay_wrote]
        exact others_rebaseline (unique_replay J) ⟨row, hrow, hname⟩ hne
      · rintro e l' s' ⟨rfl, he⟩
        exact he
    · split
      · exact wp_fail _ h
      · exact hstay h

theorem wp_guardUnregisteredRename {checksum : String} (h : Under key procs i c J l s) :
    (guardUnregisteredRename rel ctx file checksum).Wp (protocol key procs i) l
      (Job.Ends (fun renamed l' s' => (renamed = true → ctx.includeManual = false) ∧
          Under key procs i c J l' s' ∧ l'.lockSkipped = l.lockSkipped)
        (fun _ => Left key procs i c)) s := by
  unfold guardUnregisteredRename
  have hstable : ∀ (renamed : Bool) (l' : Locals), (protocol key procs i).Stable (fun s' =>
      (renamed = true → ctx.includeManual = false) ∧ Under key procs i c J l' s' ∧
        l'.lockSkipped = l.lockSkipped) :=
    fun _ _ s s' hr hs => ⟨hs.1, stable_under s s' hr hs.2.1, hs.2.2⟩
  cases ctx.orphanByChecksum checksum with
  | none =>
    exact Job.wp_done (hstable false l) ⟨(fun hf => by cases hf), h, rfl⟩
  | some oldName =>
    show Job.Wp _ (if _ then _ else _) _ _ _
    split
    · exact wp_fail _ h
    · rename_i hpassive
      have hup := wp_note (f := fun l => { l with pending := l.pending ++ [file] })
        (fun _ => rfl) (fun _ => rfl) h
      apply hup.bind _ (fun e l' s' he => he)
      rintro _ l₁ s₁ ⟨rfl, h₁⟩
      refine Job.wp_done (hstable true _) ⟨fun _ => ?_, h₁, rfl⟩
      simp only [Bool.or_eq_true, not_or, Bool.not_eq_true] at hpassive
      exact hpassive.1

theorem wp_guardMigrationFrontier (h : Under key procs i c J l s) :
    (guardMigrationFrontier rel ctx file mode).Wp (protocol key procs i) l
      (Job.Ends (fun _ l' s' => l' = l ∧ Under key procs i c J l s')
        (fun _ => Left key procs i c)) s := by
  have hstay : (pure () : Runner Unit).Wp (protocol key procs i) l
      (Job.Ends (fun _ l' s' => l' = l ∧ Under key procs i c J l s')
        (fun _ => Left key procs i c)) s :=
    Job.wp_done stable_under.known ⟨rfl, h⟩
  unfold guardMigrationFrontier
  split
  · cases backdatedFrontierViolation file (ctx.appliedByName.map Prod.fst) with
    | none => exact hstay
    | some frontier =>
      show Job.Wp _ (if _ then _ else _) _ _ _
      split
      · exact wp_fail _ h
      · exact hstay
  · exact hstay

/-- **Step lemma.** A file of the tree is a turn or less. -/
theorem wp_processRead (hrel : rel = (procs i).release)
    (hinclude : ctx.includeManual = (procs i).options.includeManual) (hserial : Serial key procs J)
    (hseen : Seen key ctx file J) (hread : rel.read file = some raw)
    (hlisted : ∃ files, rel.files = some files ∧ file ∈ files) (hdated : isDated file = true)
    (htarget : ∀ only ∈ (procs i).options.targets, file ∈ only)
    (hconn : ctx.conn = c) (h : Under key procs i c J l s) :
    (processRead rel ctx file raw).Wp (protocol key procs i) l
      (Job.Ends (fun _ => After key procs i c file J l
          (fun J' => ctx.includeManual = true → file ∈ names (replay key J')))
        (fun _ => Left key procs i c)) s := by
  unfold processRead
  have hreconciled : (isReconciled rel ctx file (rel.checksum raw)).Wp (protocol key procs i) l
      (Job.Ends (fun done l' s' =>
          (done = true ∧ After key procs i c file J l (fun J' => file ∈ names (replay key J')) l' s') ∨
          (done = false ∧ file ∉ names (replay key J) ∧ l' = l ∧ Under key procs i c J l s'))
        (fun _ => Left key procs i c)) s := by
    unfold isReconciled
    split
    · rename_i hsome
      apply (wp_reconcile hrel hserial hseen hsome hconn h).ends _ (fun e l' s' he => he)
      exact fun done l' s' hdone => .inl hdone
    · rename_i hnone
      have habsent := hseen.absent (Option.not_isSome_iff_eq_none.mp hnone)
      refine Job.wp_done ?_ (.inr ⟨rfl, habsent, rfl, h⟩)
      rintro s s' hr (hs | hs)
      · exact .inl ⟨hs.1, stable_after s s' hr hs.2⟩
      · exact .inr ⟨hs.1, hs.2.1, hs.2.2.1, stable_under s s' hr hs.2.2.2⟩
  apply hreconciled.bind _ (fun e l' s' he => he)
  -- in the ledger already, or not in it and nothing was done yet
  rintro done l₁ s₁ (⟨rfl, J', hturn, hmem, hup, hskipped⟩ | ⟨rfl, hnew, rfl, h₁⟩)
  · exact Job.wp_done stable_after ⟨J', hturn, fun _ => hmem, hup, hskipped⟩
  show Job.Wp _ (guardUnregisteredRename rel ctx file (rel.checksum raw) >>= _) _ _ _
  apply (wp_guardUnregisteredRename h₁).bind _ (fun e l' s' he => he)
  rintro renamed l₂ s₂ ⟨hrenamed, h₂, hskipped₂⟩
  cases renamed with
  | true =>
    refine Job.wp_done stable_after ⟨J, Turn.stay hserial file, ?_, h₂, hskipped₂⟩
    intro hmanual
    rw [hrenamed rfl] at hmanual
    cases hmanual
  | false =>
    show Job.Wp _ (migrationModeOrSkip rel ctx file raw >>= _) _ _ _
    apply (wp_migrationModeOrSkip hrel hserial hread hconn h₂).bind _ (fun e l' s' he => he)
    rintro mode l₃ s₃ ⟨J', hturn, hchosen, h₃, hskipped₃⟩
    cases mode with
    | none =>
      exact Job.wp_done stable_after ⟨J', hturn, hchosen, h₃, hskipped₃.trans hskipped₂⟩
    | some mode =>
      -- nothing was written so far: the turn begins with the statements
      obtain ⟨rfl, rfl, hallowed⟩ := hchosen
      show Job.Wp _ (guardMigrationFrontier rel ctx file (rel.migrationMode raw) >>= _) _ _ _
      apply (wp_guardMigrationFrontier h₃).bind _ (fun e l' s' he => he)
      rintro _ l₄ s₄ ⟨rfl, h₄⟩
      have hclears : (rel.migrationMode raw = .auto →
          rel.destructiveAutoStatement (splitSqlStatements raw) = none ∧
            rel.declaredKeyDrop file (splitSqlStatements raw) = none) →
          (procs i).Clears file raw := by
        subst hrel
        exact fun hauto => ⟨hlisted, hread, hdated, htarget, hinclude ▸ hallowed, hauto⟩
      apply (wp_applyMigrationFile hrel rfl hserial hnew hclears hconn h₄).ends _
        (fun e l' s' he => he)
      rintro _ l' s' ⟨J'', hturn', hmem, hup, hskipped₄⟩
      exact ⟨J'', hturn', fun _ => hmem, hup, hskipped₄.trans (hskipped₃.trans hskipped₂)⟩

theorem wp_processMigration (hrel : rel = (procs i).release)
    (hinclude : ctx.includeManual = (procs i).options.includeManual)
    (honly : ctx.only = (procs i).options.targets) (hserial : Serial key procs J)
    (hseen : Seen key ctx file J) (hlisted : ∃ files, rel.files = some files ∧ file ∈ files)
    (hconn : ctx.conn = c) (h : Under key procs i c J l s) :
    (processMigration rel ctx file).Wp (protocol key procs i) l
      (Job.Ends (fun _ => After key procs i c file J l
          (fun J' => ctx.includeManual = true → ctx.only = none → file ∈ names (replay key J')))
        (fun _ => Left key procs i c)) s := by
  unfold processMigration
  split
  · rename_i hscoped
    have hsome : ctx.only ≠ none := by
      intro hnone
      rw [hnone] at hscoped
      cases hscoped
    split
    · exact Job.wp_done stable_after
        ⟨J, Turn.stay hserial file, fun _ hnone => absurd hnone hsome, h, rfl⟩
    · have hup := wp_note (f := fun l => { l with pending := l.pending ++ [file] })
        (fun _ => rfl) (fun _ => rfl) h
      apply hup.ends _ (fun e l' s' he => he)
      rintro _ l' s' ⟨rfl, h'⟩
      exact ⟨J, Turn.stay hserial file, fun _ hnone => absurd hnone hsome, h', rfl⟩
  · rename_i hunscoped
    split
    · rename_i hdated
      cases hread : rel.read file with
      | none => exact wp_fail _ h
      | some raw =>
        have htarget : ∀ only ∈ (procs i).options.targets, file ∈ only := by
          intro only hmem
          rw [← honly] at hmem
          rw [Option.mem_def.mp hmem] at hunscoped
          simpa using hunscoped
        apply (wp_processRead hrel hinclude hserial hseen hread hlisted hdated htarget hconn h).ends _
          (fun e l' s' he => he)
        rintro _ l' s' ⟨J', hturn, hmem, hup, hskipped⟩
        exact ⟨J', hturn, fun hmanual _ => hmem hmanual, hup, hskipped⟩
    · exact wp_fail _ h

/-! ## Section 3: All files -/

theorem planLedgerRenames_eq (appliedNames : List String) : planLedgerRenames appliedNames = [] := rfl

/-- The map of applied names answers as the ledger it was read from. -/
theorem seen_of_rows {rows : List LedgerRow} (hrows : rows.Perm (replay key J))
    (happlied : ctx.appliedByName = rows.map (fun r => (r.name, r.checksum))) (file : String) :
    Seen key ctx file J := by
  constructor
  · intro hnone hmem
    obtain ⟨row, hrow, rfl⟩ := List.mem_map.mp hmem
    rw [List.lookup_eq_none_iff, happlied] at hnone
    have hne := hnone _ (List.mem_map_of_mem (hrows.mem_iff.mpr hrow))
    simp at hne
  -- the first row of the name is a row
  · intro recorded hsome
    rw [List.lookup_eq_some_iff, happlied] at hsome
    obtain ⟨front, back, hsplit, -⟩ := hsome
    have hmem : (file, recorded) ∈ rows.map (fun r => (r.name, r.checksum)) := by
      rw [hsplit]
      simp
    obtain ⟨row, hrow, heq⟩ := List.mem_map.mp hmem
    injection heq with hname hchecksum
    exact ⟨row, hrows.mem_iff.mp hrow, hname, hchecksum⟩

theorem wp_loadAppliedLedger (files : List String) (h : Under key procs i c J l s) :
    (loadAppliedLedger c files).Wp (protocol key procs i) l
      (Job.Ends (fun loaded l' s' => l' = l ∧ (∃ rows : List LedgerRow, rows.Perm (replay key J) ∧
          loaded.1 = rows.map (fun r => (r.name, r.checksum))) ∧ Under key procs i c J l s')
        (fun _ => Left key procs i c)) s := by
  unfold loadAppliedLedger
  apply (wp_readLedger h).bind
  · rintro rows l₁ s₁ ⟨rfl, hrows, h₁⟩
    simp only [planLedgerRenames_eq]
    exact Job.wp_done stable_under.known.known
      ⟨rfl, ⟨rows, hrows, rfl⟩, h₁⟩
  · rintro e l' s' ⟨rfl, he⟩
    exact he

theorem wp_ensureMigrationsLedger {t d : Bool} {q : Option (List Write)}
    {J : Option (List (Entry ι))} (h : At key procs i c t d q J s) :
    (ensureMigrationsLedger c).Wp (protocol key procs i) l
      (Job.Ends (fun _ l' s' => l' = l ∧ At key procs i c t d q J s')
        (fun _ l' s' => l' = l ∧ Mine key procs i c t d s')) s := by
  have hmine : ∀ s, At key procs i c t d q J s → Mine key procs i c t d s := fun s hs => hs.toMine
  unfold ensureMigrationsLedger
  apply (wp_quiet (q := .createLedger) trivial stable_at hmine h).bind _ (fun e l' s' he => he)
  rintro _ l₁ s₁ ⟨rfl, h₁⟩
  apply (wp_quiet (q := .inspect APPLIED_AT_TYPE) trivial stable_at hmine h₁).bind _
    (fun e l' s' he => he)
  rintro rows l₂ s₂ ⟨rfl, h₂⟩
  split
  · exact wp_quiet (q := .retypeAppliedAt) trivial stable_at hmine h₂
  · exact Job.wp_done stable_at.known ⟨rfl, h₂⟩

/-- The run takes every file of the tree, also the manual ones. -/
def Process.Whole (p : Process) : Prop :=
  p.options.includeManual = true ∧ p.options.targets = none

/-- Every file of its tree is in the ledger. -/
def Recorded (key : NameKey) (procs : ι → Process) (i : ι) (s : Server ι) : Prop :=
  ∀ files, (procs i).release.files = some files → ∀ file ∈ files, file ∈ names (replay key s.journal)

theorem Release.files_nodup {files : List String} (h : rel.files = some files) : files.Nodup := by
  obtain ⟨entries, hentries, rfl⟩ := Option.map_eq_some_iff.mp h
  exact ((List.perm_insertionSort _ _).nodup_iff).mpr
    ((rel.entries_nodup entries hentries).filter _)

/-- **Run lemma.** The files one after the other. -/
theorem wp_processFiles {files : List String} (hfiles : (procs i).release.files = some files)
    (hserial : Serial key procs J) (h : Under key procs i c J l s) :
    (processFiles (procs i).release (procs i).options c files).Wp (protocol key procs i) l
      (Job.Ends (fun _ l' s' => Left key procs i c l' s' ∧ l'.lockSkipped = l.lockSkipped ∧
          ((procs i).Whole → Recorded key procs i s'))
        (fun _ => Left key procs i c)) s := by
  unfold processFiles
  have hactivate : (Job.when ((procs i).options.targets = none)
      (activate (procs i).release c) : Runner Unit).Wp (protocol key procs i) l
      (Job.Ends (fun _ l' s' => l'.lockSkipped = l.lockSkipped ∧ Under key procs i c J l' s')
        (fun _ => Left key procs i c)) s := by
    apply Job.wp_when
    · exact stable_under.known
    · intro _
      apply (wp_activate _ h).ends _ (fun e l' s' he => he)
      rintro _ l' s' ⟨rfl, h'⟩
      exact ⟨rfl, h'⟩
    · exact fun _ => ⟨rfl, h⟩
  apply hactivate.bind _ (fun e l' s' he => he)
  rintro _ l₁ s₁ ⟨hskipped₁, h₁⟩
  apply (wp_ensureMigrationsLedger h₁).bind _ (fun e l' s' he => he.1 ▸ he.2)
  rintro _ l₂ s₂ ⟨rfl, h₂⟩
  apply (wp_loadAppliedLedger files h₂).bind _ (fun e l' s' he => he)
  rintro loaded l₃ s₃ ⟨rfl, ⟨rows, hrows, hloaded⟩, h₃⟩
  -- the files dealt with are in the ledger, and the others are in it as they were
  have hloop := Job.wp_forEach (π := protocol key procs i)
    (f := processMigration (procs i).release ⟨(procs i).options.includeManual,
      (procs i).options.targets, c, loaded.1, loaded.2⟩)
    (I := fun dealt l' s' => ∃ J', Serial key procs J' ∧ Under key procs i c J' l' s' ∧
      l'.lockSkipped = l.lockSkipped ∧
      (∀ file ∈ files, file ∉ dealt → Seen key ⟨(procs i).options.includeManual,
        (procs i).options.targets, c, loaded.1, loaded.2⟩ file J') ∧
      ((procs i).Whole → ∀ file ∈ dealt, file ∈ names (replay key J')))
    (E := fun _ => Left key procs i c) (x := files) (l := l₃) (s := s₃) ?_ ?_ ?_
  · apply hloop.ends _ (fun e l' s' he => he)
    rintro _ l' s' ⟨J', hserial', hup, hskipped, -, hwhole⟩
    refine ⟨hup.left, hskipped, ?_⟩
    intro hmanual files' hfiles' file hfile
    rw [hfiles, Option.some.injEq] at hfiles'
    subst hfiles'
    -- others may have gone on since, but a name in the ledger stays there
    obtain ⟨B, hB⟩ := hup.past J' rfl
    have hlater := hup.good.serial
    rw [← hB] at hlater ⊢
    exact hlater.names_replay.subset (hwhole hmanual file hfile)
  · rintro dealt l' s s' hr ⟨J', hserial', hup, hrest⟩
    exact ⟨J', hserial', stable_under s s' hr hup, hrest⟩
  · rintro dealt file rest l' s' hsplit ⟨J', hserial', hup, hskipped, hseen, hwhole⟩
    have hmem : file ∈ files := by
      rw [hsplit]
      simp
    -- a tree lists a file once, so this one was not dealt with before
    have hnodup := Release.files_nodup hfiles
    have hfresh : file ∉ dealt := by
      rw [hsplit] at hnodup
      intro hdealt
      exact (List.nodup_append.mp hnodup).2.2 file hdealt file List.mem_cons_self rfl
    apply (wp_processMigration rfl rfl rfl hserial' (hseen file hmem hfresh) ⟨files, hfiles, hmem⟩
      rfl hup).ends _ (fun e l' s' he => he)
    rintro _ l'' s'' ⟨J'', hturn, hrecorded, hup', hskipped'⟩
    refine ⟨J'', hturn.serial, hup', hskipped'.trans hskipped, ?_, ?_⟩
    · intro file' hmem' hfresh'
      rw [List.mem_append, List.mem_singleton, not_or] at hfresh'
      exact (hseen file' hmem' hfresh'.1).turn hfresh'.2 hturn
    · intro hmanual file' hmem'
      rcases List.mem_append.mp hmem' with hdealt | hself
      -- a turn leaves the names of the files before it
      · by_cases heq : file' = file
        · rw [heq]
          exact hrecorded hmanual.1 hmanual.2
        · obtain ⟨row, hrow, hname⟩ := List.mem_map.mp (hwhole hmanual file' hdealt)
          exact List.mem_map.mpr ⟨row, (hturn.others row (fun h => heq (hname.symm.trans h))).mp
            hrow, hname⟩
      · rw [List.mem_singleton.mp hself]
        exact hrecorded hmanual.1 hmanual.2
  · refine ⟨J, hserial, h₃, hskipped₁, ?_, ?_⟩
    · exact fun file _ _ => seen_of_rows hrows hloaded file
    · intro _ file hfile
      cases hfile

/-! ## Section 4: Around the files -/

/-- A file that is in the ledger stays there. -/
theorem Recorded.grows {s' : Server ι} (h : Recorded key procs i s) (hgrows : s.journal <+: s'.journal)
    (hgood : s'.Good key procs) : Recorded key procs i s' := by
  intro files hfiles file hfile
  obtain ⟨B, hB⟩ := hgrows
  have hserial := hgood.serial
  rw [← hB] at hserial ⊢
  exact hserial.names_replay.subset (h files hfiles file hfile)

/-- What is recorded, if anything is, under any steps. -/
theorem stable_recorded (P : Prop) : (protocol key procs i).Stable
    (fun s => s.Good key procs ∧ (P → Recorded key procs i s)) :=
  fun _ _ hr hs => ⟨hr.good hs.1, fun hP => (hs.2 hP).grows hr.grows (hr.good hs.1)⟩

theorem guarantee_recorded (P : Prop) : ∀ s s', (protocol key procs i).guarantee s s' →
    s.Good key procs ∧ (P → Recorded key procs i s) →
    s'.Good key procs ∧ (P → Recorded key procs i s') :=
  fun _ _ hg hs => ⟨hg.good hs.1, fun hP => (hs.2 hP).grows hg.grows (hg.good hs.1)⟩

variable {t d : Bool}

theorem wp_releaseMigrationLock (h : Mine key procs i c t d s) :
    (releaseMigrationLock c).Wp (protocol key procs i) l
      (Job.Ends (fun _ l' s' => l' = l ∧ Mine key procs i c t d s') (fun _ _ _ => False)) s := by
  apply Job.wp_quietly
  · exact fun _ => stable_mine.known
  · exact (wp_releaseLock h).ends (fun _ l' s' hr => hr) (fun e l' s' he => he)

theorem wp_quietly_destroy (h : Mine key procs i c t d s) :
    (destroy c).quietly.Wp (protocol key procs i) l
      (Job.Ends (fun _ l' s' => l' = l ∧ s'.Good key procs) (fun _ _ _ => False)) s :=
  Job.wp_quietly (fun _ => (stable_good i).known) (wp_destroy h)

theorem wp_quietly_release (h : Mine key procs i c false false s) :
    (release c).quietly.Wp (protocol key procs i) l
      (Job.Ends (fun _ l' s' => l' = l ∧ s'.Good key procs) (fun _ _ _ => False)) s :=
  Job.wp_quietly (fun _ => (stable_good i).known) (wp_release h)

/-- A connection that is said to be poolable has its limit back. -/
theorem wp_releaseSession (h : Left key procs i c l s) :
    (releaseSession (procs i).release c).Wp (protocol key procs i) l
      (Job.Ends (fun pooled l' s' => l' = l ∧ s'.Good key procs ∧
          (pooled = true → Mine key procs i c false l.sessionDirty s')) (fun _ _ _ => False)) s := by
  have hstable : ∀ (pooled : Bool) (l' : Locals), (protocol key procs i).Stable (fun s' => l' = l ∧
      s'.Good key procs ∧ (pooled = true → Mine key procs i c false l.sessionDirty s')) :=
    fun _ _ s s' hr hs => ⟨hs.1, hr.good hs.2.1, fun hp => stable_mine s s' hr (hs.2.2 hp)⟩
  unfold releaseSession
  apply Job.wp_bind
  apply Job.wp_locals
  · exact fun s s' hr hs => hs.relies (.single hr)
  show Job.Wp _ (if l.touched = true then _ else _) _ _ _
  split
  · unfold restoreRuntimeTimeoutAndReleaseLock
    apply Job.wp_bind
    apply Job.wp_attempt
    apply (wp_restore h).mono
    intro restored l₁ s₁ hrestored
    -- a connection whose limit could not be given back is closed
    cases restored with
    | ok _ =>
      obtain ⟨rfl, h₁⟩ := hrestored
      apply (wp_releaseMigrationLock h₁).bind _ (fun e l' s' he => he.elim)
      rintro _ l₂ s₂ ⟨rfl, h₂⟩
      exact Job.wp_done (hstable true l₂) ⟨rfl, h₂.good, fun _ => h₂⟩
    | error e =>
      obtain ⟨rfl, h₁⟩ := hrestored
      apply (wp_releaseMigrationLock h₁).bind _ (fun e l' s' he => he.elim)
      rintro _ l₂ s₂ ⟨rfl, h₂⟩
      apply (wp_quietly_destroy h₂).bind _ (fun e l' s' he => he.elim)
      rintro _ l₃ s₃ ⟨rfl, hgood⟩
      exact Job.wp_done (hstable false l₃) ⟨rfl, hgood, fun hf => by cases hf⟩
  · rename_i huntouched
    have h' : Mine key procs i c false l.sessionDirty s :=
      h.weaken (fun htouched => absurd htouched huntouched) id
    apply (wp_releaseMigrationLock h').bind _ (fun e l' s' he => he.elim)
    rintro _ l₁ s₁ ⟨rfl, h₁⟩
    exact Job.wp_done (hstable true l₁) ⟨rfl, h₁.good, fun _ => h₁⟩

/-- The connection is clean if it is to go back to the pool, and otherwise gone. -/
def Poolable (key : NameKey) (procs : ι → Process) (i : ι) (c : ℕ) (l : Locals) (s : Server ι) : Prop :=
  s.Good key procs ∧ (l.returnToPool = true → Mine key procs i c false l.sessionDirty s)

theorem stable_poolable : (protocol key procs i).Stable (Poolable key procs i c l) :=
  fun s s' hr hs => ⟨hr.good hs.1, fun hp => stable_mine s s' hr (hs.2 hp)⟩

/-- A whole run that was not skipped has recorded every file. -/
def Complete (key : NameKey) (procs : ι → Process) (i : ι) (l : Locals) (s : Server ι) : Prop :=
  (procs i).Whole → l.lockSkipped = false → Recorded key procs i s

theorem stable_complete : (protocol key procs i).Stable
    (fun s => s.Good key procs ∧ Complete key procs i l s) := by
  rintro s s' hr ⟨hs, hcomplete⟩
  exact ⟨hr.good hs, fun hwhole hskipped => (hcomplete hwhole hskipped).grows hr.grows (hr.good hs)⟩

theorem wp_assertStrictSqlMode {q : Option (List Write)} {J : Option (List (Entry ι))}
    (h : At key procs i c t d q J s) :
    (assertStrictSqlMode c).Wp (protocol key procs i) l
      (Job.Ends (fun _ l' s' => l' = l ∧ At key procs i c t d q J s')
        (fun _ l' s' => l' = l ∧ Mine key procs i c t d s')) s := by
  unfold assertStrictSqlMode
  apply (wp_quiet (q := .sqlMode) trivial stable_at (fun s hs => hs.toMine) h).bind _
    (fun e l' s' he => he)
  rintro mode l₁ s₁ ⟨rfl, h₁⟩
  split
  · exact Job.wp_done stable_at.known ⟨rfl, h₁⟩
  · exact Job.wp_stop stable_mine.known ⟨rfl, h₁.toMine⟩

/-- A run from the lock to its release. -/
theorem wp_migrateUnderLock {files : List String} (hfiles : (procs i).release.files = some files)
    (h : At key procs i c false false none none s) :
    (migrateUnderLock (procs i).release (procs i).options c files).Wp (protocol key procs i)
      Locals.start
      (Job.Ends (fun _ l' s' => Poolable key procs i c l' s' ∧ Complete key procs i l' s')
        (fun _ => Poolable key procs i c)) s := by
  have hboth : ∀ l', (protocol key procs i).Stable
      (fun s' => Poolable key procs i c l' s' ∧ Complete key procs i l' s') :=
    fun l' s s' hr hs => ⟨stable_poolable s s' hr hs.1, (stable_complete s s' hr ⟨hs.1.1, hs.2⟩).2⟩
  unfold migrateUnderLock
  apply Job.wp_bind
  apply Job.wp_attempt
  apply (wp_assertStrictSqlMode h).mono
  intro strict l₁ s₁ hstrict
  cases strict with
  | error e =>
    -- the mode is not strict, or could not be read: nothing ran, and the connection is
    -- not worth keeping
    obtain ⟨rfl, h₁⟩ := hstrict
    show Job.Wp _ (Job.update _ >>= _) _ _ _
    apply Job.wp_bind
    apply Job.wp_update
    · exact fun s s' hr hs => hs.relies (.single hr)
    exact Job.wp_stop stable_poolable ⟨h₁.good, fun _ => h₁.weaken id (fun _ => rfl)⟩
  | ok _ =>
    obtain ⟨rfl, h₁⟩ := hstrict
    apply (wp_getLock h₁).bind
    · rintro got l₂ s₂ ⟨rfl, hmine, hlocked⟩
      cases got with
      | false =>
        -- another process holds the lock: the run is skipped and says so
        apply Job.wp_update (hboth _)
        exact ⟨⟨hmine.good, fun _ => hmine⟩, fun _ hskipped => by cases hskipped⟩
      | true =>
        obtain ⟨J, hserial, hat⟩ := hlocked rfl
        show Job.Wp _ (Job.always _ _) _ _ _
        apply Job.wp_always
        · intro r l'
          cases r with
          | ok _    => exact hboth l'
          | error e => exact stable_poolable
        · apply (wp_processFiles hfiles hserial (l := Locals.start) hat).mono
          intro r l₃ s₃ hr
          cases r with
          | error e =>
            apply (wp_releaseSession hr).bind _ (fun e l' s' he => he.elim)
            rintro pooled l₄ s₄ ⟨rfl, hgood, hpooled⟩
            exact Job.wp_update stable_poolable ⟨hgood, hpooled⟩
          | ok _ =>
            obtain ⟨hleft, hskipped, hrecorded⟩ := hr
            -- what is recorded stays recorded while the session is released
            have hframe := (wp_releaseSession hleft).frame
              (stable_recorded (i := i) (procs i).Whole) (guarantee_recorded (procs i).Whole)
              ⟨hleft.good, hrecorded⟩
            apply Job.wp_bind
            apply hframe.mono
            rintro pooled l₄ s₄ ⟨hrelease, hgood, hrecorded⟩
            cases pooled with
            | error e => exact hrelease.elim
            | ok pooled =>
              obtain ⟨rfl, -, hpooled⟩ := hrelease
              exact Job.wp_update (hboth _) ⟨⟨hgood, hpooled⟩, fun hwhole _ => hrecorded hwhole⟩
    · rintro e l' s' ⟨rfl, he⟩
      exact ⟨he.good, fun _ => he⟩

/-- **Main theorem of a run.** However it ends, the server is as everybody relies on;
    and a whole run that ends well and was not skipped has recorded every file. -/
theorem wp_runMigrationsInner (h : s.Good key procs) :
    (runMigrationsInner (procs i).release (procs i).options).Wp (protocol key procs i) Locals.start
      (Job.Ends (fun _ l' s' => s'.Good key procs ∧ Complete key procs i l' s')
        (fun _ _ s' => s'.Good key procs)) s := by
  -- without a file there is nothing to record
  have hnofiles : (∀ files, (procs i).release.files = some files → files = []) →
      (pure () : Runner Unit).Wp (protocol key procs i) Locals.start
        (Job.Ends (fun _ l' s' => s'.Good key procs ∧ Complete key procs i l' s')
          (fun _ _ s' => s'.Good key procs)) s := by
    intro hnone
    refine Job.wp_done stable_complete ⟨h, fun _ _ files hfiles file hfile => ?_⟩
    rw [hnone files hfiles] at hfile
    cases hfile
  unfold runMigrationsInner
  split
  · rename_i hfiles
    apply hnofiles
    intro files hsome
    rw [hfiles] at hsome
    cases hsome
  · rename_i hfiles
    apply hnofiles
    intro files hsome
    rw [hfiles] at hsome
    exact (Option.some.inj hsome).symm
  · rename_i first rest hfiles
    have hvalid : (validateMigrationTargets (first :: rest) (procs i).options.targets).Wp
        (protocol key procs i) Locals.start (Job.Ends (fun _ l' s' => l' = Locals.start ∧
          s'.Good key procs) (fun _ _ s' => s'.Good key procs)) s := by
      have hok : (pure () : Runner Unit).Wp (protocol key procs i) Locals.start
          (Job.Ends (fun _ l' s' => l' = Locals.start ∧ s'.Good key procs)
            (fun _ _ s' => s'.Good key procs)) s :=
        Job.wp_done (stable_good i).known ⟨rfl, h⟩
      unfold validateMigrationTargets
      split
      · exact hok
      · exact Job.wp_stop (stable_good i) h
      · show Job.Wp _ (if _ then _ else _) _ _ _
        split
        · exact hok
        · exact Job.wp_stop (stable_good i) h
    apply hvalid.bind _ (fun e l' s' he => he)
    rintro _ l₁ s₁ ⟨rfl, h₁⟩
    apply (wp_lease h₁).bind
    · rintro c l₂ s₂ ⟨rfl, h₂⟩
      apply Job.wp_always
      · intro r l'
        cases r with
        | ok _    => exact stable_complete
        | error e => exact stable_good i
      · apply (wp_migrateUnderLock hfiles h₂).mono
        intro r l₃ s₃ hr
        -- the connection goes back clean, or it is closed
        have hretire : Poolable key procs i c l₃ s₃ →
            (do
              let l ← Job.locals
              if l.returnToPool then retireMigrationConnection c l.sessionDirty else pure () :
              Runner Unit).Wp (protocol key procs i) l₃
              (Job.Ends (fun _ l' s' => l' = l₃ ∧ s'.Good key procs) (fun _ _ _ => False)) s₃ := by
          rintro ⟨hgood, hpool⟩
          apply Job.wp_bind
          apply Job.wp_locals
          · exact fun s s' hr hs => hs.relies (.single hr)
          show Job.Wp _ (if l₃.returnToPool = true then _ else _) _ _ _
          split
          · rename_i hpooled
            have hmine := hpool hpooled
            unfold retireMigrationConnection
            split
            · exact wp_quietly_destroy hmine
            · rename_i hclean
              exact wp_quietly_release (hmine.weaken id (fun hdirty => absurd hdirty hclean))
          · exact Job.wp_done (stable_good i).known ⟨rfl, hgood⟩
        cases r with
        | error e =>
          exact (hretire hr).ends (fun _ l' s' hend => hend.2) (fun e l' s' hend => hend.elim)
        | ok _ =>
          -- and what is recorded stays recorded
          have hframe := (hretire hr.1).frame
            (stable_recorded (i := i) ((procs i).Whole ∧ l₃.lockSkipped = false))
            (guarantee_recorded _) ⟨hr.1.1, fun hP => hr.2 hP.1 hP.2⟩
          apply hframe.mono
          rintro r l' s' ⟨hend, hgood, hrecorded⟩
          cases r with
          | error e => exact hend.elim
          | ok _    =>
            obtain ⟨rfl, -⟩ := hend
            exact ⟨hgood, fun hwhole hskipped => hrecorded ⟨hwhole, hskipped⟩⟩
    · rintro e l' s' ⟨rfl, he⟩
      exact he

/-- A check on a connection of its own. -/
theorem wp_withConnection {check : ℕ → Runner Unit} (hcheck : ∀ c s,
      At key procs i c false false none none s → (check c).Wp (protocol key procs i) l
        (fun _ l' s' => l' = l ∧ Mine key procs i c false false s') s) (h : s.Good key procs) :
    (withConnection check).Wp (protocol key procs i) l
      (fun _ l' s' => l' = l ∧ s'.Good key procs) s := by
  unfold withConnection
  apply (wp_lease h).bind _ (fun e l' s' he => he)
  rintro c l₁ s₁ ⟨rfl, h₁⟩
  apply Job.wp_always
  · exact fun _ _ => (stable_good i).known
  · apply (hcheck c s₁ h₁).mono
    rintro r l₂ s₂ ⟨rfl, h₂⟩
    exact (wp_quietly_release h₂).ends (fun _ l' s' hend => hend) (fun e l' s' hend => hend.elim)

theorem wp_assertSchema (assertion : String × (Rows → Option String))
    (h : At key procs i c false false none none s) :
    (assertSchema c assertion).Wp (protocol key procs i) l
      (fun _ l' s' => l' = l ∧ Mine key procs i c false false s') s := by
  have hstable : (protocol key procs i).Stable
      (fun s' => l = l ∧ Mine key procs i c false false s') :=
    stable_mine.known
  unfold assertSchema
  apply (wp_quiet (q := .inspect assertion.1) trivial stable_at (fun s hs => hs.toMine) h).bind _
    (fun e l' s' he => he)
  rintro rows l₁ s₁ ⟨rfl, h₁⟩
  cases assertion.2 rows with
  | none         => exact Job.wp_done hstable ⟨rfl, h₁.toMine⟩
  | some message => exact Job.wp_stop hstable ⟨rfl, h₁.toMine⟩

theorem wp_runMigrations (h : s.Good key procs) :
    (runMigrations (procs i).release (procs i).options).Wp (protocol key procs i) Locals.start
      (Job.Ends (fun _ l' s' => s'.Good key procs ∧ Complete key procs i l' s')
        (fun _ _ s' => s'.Good key procs)) s := by
  unfold runMigrations
  apply Job.wp_bind
  apply (wp_withConnection _ h).mono
  · rintro r l₁ s₁ ⟨rfl, h₁⟩
    cases r with
    | error e => exact h₁
    | ok _ =>
      apply (wp_runMigrationsInner h₁).bind _ (fun e l' s' he => he)
      rintro _ l₂ s₂ ⟨hgood, hcomplete⟩
      apply Job.wp_forEach (I := fun _ l' s' => s'.Good key procs ∧ Complete key procs i l' s')
      · exact fun _ _ => stable_complete
      · rintro done assertion rest l₃ s₃ - ⟨hgood, hcomplete⟩
        -- an assertion only looks, so what is recorded stays recorded
        have hframe := (wp_withConnection (l := l₃)
          (fun c s hs => wp_assertSchema (c := c) assertion hs) hgood).frame
          (stable_recorded (i := i) ((procs i).Whole ∧ l₃.lockSkipped = false))
          (guarantee_recorded _) ⟨hgood, fun hP => hcomplete hP.1 hP.2⟩
        apply hframe.mono
        rintro r l₄ s₄ ⟨⟨rfl, -⟩, hgood, hrecorded⟩
        cases r with
        | error e => exact hgood
        | ok _    => exact ⟨hgood, fun hwhole hskipped => hrecorded ⟨hwhole, hskipped⟩⟩
      · exact ⟨hgood, hcomplete⟩
  · intro c s hs
    apply (wp_assertStrictSqlMode hs).ends _ (fun e l' s' he => he)
    exact fun _ l' s' hr => ⟨hr.1, hr.2.toMine⟩

/-! ## Section 5: A database built from empty -/

/-- All rows are queued and committed together, or none is. -/
theorem wp_recordInTransaction {files : List String} (hfiles : (procs i).release.files = some files)
    (hserial : Serial key procs J) (h : At key procs i c t d none (some J) s) :
    (recordInTransaction (procs i).release c files).Wp (protocol key procs i) l
      (fun _ l' s' => l' = l ∧ Mine key procs i c t d s') s := by
  have hstable : (protocol key procs i).Stable (fun s' => l = l ∧ Mine key procs i c t d s') :=
    stable_mine.known
  unfold recordInTransaction
  apply (wp_startTransaction h).bind _ (fun e l' s' he => he)
  rintro _ l₁ s₁ ⟨rfl, h₁⟩
  -- the rows queued so far are those of the files dealt with; the journal has none of them
  have hloop := Job.wp_forEach (π := protocol key procs i) (f := recordFile (procs i).release c)
    (I := fun done l' s' => l' = l₁ ∧ ∃ rows : List LedgerRow, names rows = done ∧
      (∀ row ∈ rows, ∃ raw, (procs i).release.read row.name = some raw ∧
        row = (procs i).release.row row.name raw) ∧
      At key procs i c t d (some (rows.map Write.ensure)) (some J) s')
    (E := fun _ l' s' => l' = l₁ ∧ Mine key procs i c t d s') (x := files) (l := l₁) (s := s₁)
    ?_ ?_ ?_
  · have hrecorded : (do
        Job.forEach (recordFile (procs i).release c) files
        query c .commit : Runner Unit).Wp (protocol key procs i) l₁
        (fun _ l' s' => l' = l₁ ∧ Mine key procs i c t d s') s₁ := by
      apply hloop.bind _ (fun e l' s' he => he)
      rintro _ l₂ s₂ ⟨rfl, rows, hnames, hrows, h₂⟩
      -- all files of the tree: the commit is one seed
      have hseed : Serial key procs (J ++ rows.map (fun row => .wrote i (.ensure row))) :=
        .seed i hserial ⟨hnames ▸ hfiles, hrows⟩
      exact (wp_commit hseed h₂).ends (fun _ l' s' hr => hr) (fun e l' s' he => he)
    apply Job.wp_bind
    apply Job.wp_attempt
    apply hrecorded.mono
    rintro recorded l₂ s₂ ⟨rfl, h₂⟩
    cases recorded with
    | ok _ =>
      simp only [Job.ends_ok]
      exact Job.wp_done hstable ⟨rfl, h₂⟩
    -- the queue is dropped, and a rollback that fails is not looked at
    | error e =>
      simp only [Job.ends_ok]
      apply Job.Wp.bind (R := fun _ l' s' => l' = l₂ ∧ Mine key procs i c t d s')
        (E := fun _ _ _ => False)
      · apply Job.wp_quietly
        · exact fun _ => stable_mine.known
        · exact (wp_rollback h₂).ends (fun _ l' s' hr => hr) (fun e l' s' he => he)
      · rintro _ l₃ s₃ ⟨rfl, h₃⟩
        exact Job.wp_stop hstable ⟨rfl, h₃⟩
      · exact fun e l' s' he => he.elim
  · rintro done l' s s' hr ⟨hl, rows, hnames, hrows, hat⟩
    exact ⟨hl, rows, hnames, hrows, stable_at s s' hr hat⟩
  · rintro done file rest l' s' - ⟨rfl, rows, hnames, hrows, hat⟩
    unfold recordFile
    cases hread : (procs i).release.read file with
    | none     => exact Job.wp_stop hstable ⟨rfl, hat.toMine⟩
    | some raw =>
      apply (wp_queue _ hat).ends _ (fun e l'' s'' he => he)
      rintro _ l'' s'' ⟨rfl, hat'⟩
      refine ⟨rfl, rows ++ [(procs i).release.row file raw], ?_, ?_, ?_⟩
      · simp [names, ← hnames, Release.row]
      · intro row hrow
        rcases List.mem_append.mp hrow with hrow | hrow
        · exact hrows row hrow
        · rw [List.mem_singleton.mp hrow]
          exact ⟨raw, hread, rfl⟩
      · rw [List.map_append]
        exact hat'
  · refine ⟨rfl, [], rfl, ?_, h₁⟩
    intro row hrow
    cases hrow

theorem wp_recordFreshSchemaMigrations (h : At key procs i c false false none none s) :
    (recordFreshSchemaMigrations (procs i).release c).Wp (protocol key procs i) l
      (fun _ l' s' => l' = l ∧ Mine key procs i c false false s') s := by
  have hstable : ∀ l', (protocol key procs i).Stable
      (fun s' => l' = l ∧ Mine key procs i c false false s') :=
    fun _ => stable_mine.known
  unfold recordFreshSchemaMigrations
  split
  · exact Job.wp_done (hstable l) ⟨rfl, h.toMine⟩
  · exact Job.wp_done (hstable l) ⟨rfl, h.toMine⟩
  · rename_i first rest hfiles
    apply (wp_ensureMigrationsLedger h).bind _ (fun e l' s' he => he)
    rintro _ l₁ s₁ ⟨rfl, h₁⟩
    apply (wp_getLock h₁).bind _ (fun e l' s' he => he)
    rintro got l₂ s₂ ⟨rfl, hmine, hlocked⟩
    cases got with
    | false => exact Job.wp_stop (hstable l₂) ⟨rfl, hmine⟩
    | true =>
      obtain ⟨J, hserial, hat⟩ := hlocked rfl
      apply Job.wp_always
      · exact fun r l' => hstable l'
      · apply (wp_recordInTransaction hfiles hserial hat).mono
        rintro r l₃ s₃ ⟨rfl, h₃⟩
        exact (wp_releaseMigrationLock h₃).ends (fun _ l' s' hend => hend)
          (fun e l' s' hend => hend.elim)

theorem wp_verifyTables (h : s.Good key procs) :
    (verifyTables (procs i).release).Wp (protocol key procs i) l
      (fun _ l' s' => l' = l ∧ s'.Good key procs) s := by
  unfold verifyTables
  apply (wp_lease h).bind _ (fun e l' s' he => he)
  rintro c l₁ s₁ ⟨rfl, h₁⟩
  apply (wp_quiet (q := .inspect SHOW_TABLES) trivial stable_at (fun s hs => hs.toMine) h₁).bind _
    (fun e l' s' he => ⟨he.1, he.2.good⟩)
  rintro rows l₂ s₂ ⟨rfl, h₂⟩
  apply Job.wp_always
  · exact fun _ _ => (stable_good i).known
  apply Job.Wp.mono (Q := fun _ l' s' => l' = l₂ ∧ Mine key procs i c false false s')
  · have hmine : (protocol key procs i).Stable
        (fun s' => l₂ = l₂ ∧ Mine key procs i c false false s') :=
      stable_mine.known
    -- the ledger is seeded where `SHOW TABLES` said that none of the tables was there
    have hseed : (Job.when (isFreshSchema (procs i).release.sqlFiles
        (rows.filterMap (fun row => row.head?.join)) = true)
        (recordFreshSchemaMigrations (procs i).release c) : Runner Unit).Wp (protocol key procs i) l₂
        (fun _ l' s' => l' = l₂ ∧ Mine key procs i c false false s') s₂ :=
      Job.wp_when hmine (fun _ => wp_recordFreshSchemaMigrations h₂) (fun _ => ⟨rfl, h₂.toMine⟩)
    apply Job.wp_bind
    apply hseed.mono
    rintro r l₃ s₃ ⟨rfl, h₃⟩
    cases r with
    | error e => exact ⟨rfl, h₃⟩
    | ok _ =>
      have hloop := Job.wp_forEach (π := protocol key procs i)
        (f := fun file => query c (.verifyTable file))
        (I := fun _ l' s' => l' = l₃ ∧ Mine key procs i c false false s')
        (E := fun _ l' s' => l' = l₃ ∧ Mine key procs i c false false s')
        (x := (procs i).release.sqlFiles.filter (fun file => ".sql".toList <:+: file.toList))
        (l := l₃) (s := s₃) (fun _ _ => stable_mine.known) ?_ ⟨rfl, h₃⟩
      · simp only [Job.ends_ok]
        exact hloop.ends (fun _ l' s' hr => hr) (fun e l' s' he => he)
      · rintro done file rest l' s' - ⟨rfl, h'⟩
        exact wp_quiet (q := .verifyTable file) trivial stable_mine (fun s hs => hs) h'
  · rintro r l₃ s₃ ⟨rfl, h₃⟩
    exact (wp_quietly_release h₃).ends (fun _ l' s' hend => hend) (fun e l' s' hend => hend.elim)

/-- **Main theorem.** A process keeps to its terms from start to end. -/
theorem wp_job (h : s.Good key procs) :
    (procs i).job.Wp (protocol key procs i) Locals.start
      (Job.Ends (fun _ l' s' => s'.Good key procs ∧ Complete key procs i l' s')
        (fun _ _ s' => s'.Good key procs)) s := by
  unfold Process.job
  split
  · apply Job.wp_bind
    apply (wp_verifyTables h).mono
    rintro r l₁ s₁ ⟨rfl, h₁⟩
    cases r with
    | error e => exact h₁
    | ok _    => exact wp_runMigrations h₁
  · exact wp_runMigrations h

end XChainDecoder.Migrate
