import XChainDecoder.Migrate.Runner

/-! # Histories of a ledger

    What the ledger is for: it should look as if the processes had taken turns, each
    doing one thing at a time. `Serial` lists the turns: a file is begun, or applied as
    a whole and recorded; a row is baselined or healed; a database built from empty gets
    all its rows. A file is only ever begun while the ledger does not hold its name.

    **Main theorems.** `Serial.statement_of_split`, `Serial.apply_of_split`,
    `Serial.settled`, `Serial.ensure_of_mem`. -/

namespace XChainDecoder.Migrate

variable {ι : Type} (key : NameKey) (procs : ι → Process)

/-! ## Section 1: Turns -/

def names (ledger : List LedgerRow) : List String := ledger.map LedgerRow.name

/-- The row of a file. -/
def Release.row (rel : Release) (file : String) (raw : List Char) : LedgerRow :=
  ⟨file, rel.checksum raw, rel.migrationMode raw⟩

/-- A process may run the statements of this text under this name. -/
structure Process.Clears (p : Process) (file : String) (raw : List Char) : Prop where
  listed : ∃ files, p.release.files = some files ∧ file ∈ files
  read   : p.release.read file = some raw
  dated  : isDated file = true
  target : ∀ only ∈ p.options.targets, file ∈ only
  mode   : p.options.includeManual = true ∨ p.release.migrationMode raw = .auto
  auto   : p.release.migrationMode raw = .auto →
    p.release.destructiveAutoStatement (splitSqlStatements raw) = none ∧
      p.release.declaredKeyDrop file (splitSqlStatements raw) = none

/-- The rows of a whole migrations directory. -/
def Release.Lists (rel : Release) (rows : List LedgerRow) : Prop :=
  rel.files = some (names rows) ∧
    ∀ row ∈ rows, ∃ raw, rel.read row.name = some raw ∧ row = rel.row row.name raw

/-- The journals of processes that take turns. -/
inductive Serial : List (Entry ι) → Prop where
  | start : Serial []
  /-- the first statements of a file, and then an error or the end of the process -/
  | attempt {J : List (Entry ι)} (i : ι) {file : String} {raw : List Char} {texts : List (List Char)}
      (h : Serial J) (hclears : (procs i).Clears file raw) (hnew : file ∉ names (replay key J))
      (hbegun : texts <+: splitSqlStatements raw) : Serial (J ++ texts.map (.statement i file))
  | apply {J : List (Entry ι)} (i : ι) {file : String} {raw : List Char}
      (h : Serial J) (hclears : (procs i).Clears file raw) (hnew : ¬key.Holds (replay key J) file) :
      Serial (J ++ ((splitSqlStatements raw).map (.statement i file) ++
        [.wrote i (.apply ((procs i).release.row file raw))]))
  | baseline {J : List (Entry ι)} (i : ι) {file : String} {raw : List Char}
      (h : Serial J) (hread : (procs i).release.read file = some raw)
      (hskip : ((procs i).release.preconditions file).isSome = true)
      (hnew : ¬key.Holds (replay key J) file) :
      Serial (J ++ [.wrote i (.baseline ((procs i).release.row file raw))])
  | rebaseline {J : List (Entry ι)} (i : ι) {file recorded checksum : String}
      (h : Serial J) (hrow : ∃ row ∈ replay key J, row.name = file ∧ row.checksum = recorded)
      (hpinned : (procs i).release.isPinned file (some recorded) checksum = true) :
      Serial (J ++ [.wrote i (.rebaseline file checksum)])
  | seed {J : List (Entry ι)} (i : ι) {rows : List LedgerRow}
      (h : Serial J) (hrows : (procs i).release.Lists rows) :
      Serial (J ++ rows.map (fun row => .wrote i (.ensure row)))

/-! ## Section 2: Replaying a journal -/

section Replay

variable {key} {J J' : List (Entry ι)} {L L' : List LedgerRow}

theorem replay_append (J J' : List (Entry ι)) :
    replay key (J ++ J') = J'.foldl (Entry.onLedger key) (replay key J) :=
  List.foldl_append

/-- Statements leave the ledger alone. -/
theorem replay_statements (J : List (Entry ι)) (i : ι) (file : String) (texts : List (List Char)) :
    replay key (J ++ texts.map (.statement i file)) = replay key J := by
  rw [replay_append, List.foldl_map]
  -- by induction on the statements, from the ledger they are sent on
  induction texts with
  | nil => rfl
  | cons text texts ih => exact ih

theorem replay_wrote (J : List (Entry ι)) (i : ι) (w : Write) :
    replay key (J ++ [.wrote i w]) = (w.result key (replay key J)).getD (replay key J) :=
  replay_append J _

/-- A row is inserted where its key is free, and goes to the end. -/
theorem Write.result_insert {w : Write} {row : LedgerRow} (hw : w = .apply row ∨ w = .baseline row)
    (h : w.result key L = some L') : ¬key.Holds L row.name ∧ L' = L ++ [row] := by
  rcases hw with rfl | rfl <;>
  · simp only [Write.result] at h
    split at h
    · cases h
    · rename_i hnew
      exact ⟨hnew, (Option.some.inj h).symm⟩

theorem NameKey.holds_of_mem {file : String} (h : file ∈ names L) : key.Holds L file := by
  obtain ⟨row, hrow, rfl⟩ := List.mem_map.mp h
  exact ⟨row, hrow, rfl⟩

def Write.IsRekey (w : Write) : Prop := ∃ name name', w = .rekey name name'

/-- Only a re-keying takes a name out of the ledger. -/
theorem Write.names_result {w : Write} (hw : ¬w.IsRekey) (h : w.result key L = some L') :
    names L <+: names L' := by
  cases w with
  | apply row | baseline row =>
    simp only [Write.result] at h
    split at h
    · cases h
    · rw [← Option.some.inj h]
      exact ⟨[row.name], by simp [names]⟩
  | ensure row =>
    simp only [Write.result, Option.some.injEq] at h
    subst h
    split
    · exact List.prefix_rfl
    · exact ⟨[row.name], by simp [names]⟩
  | rebaseline name checksum =>
    simp only [Write.result, Option.some.injEq] at h
    subst h
    -- a healed row keeps its name
    have heq : names (L.map (fun r => if key.weight r.name = key.weight name then
        { r with checksum := checksum } else r)) = names L := by
      unfold names
      rw [List.map_map]
      apply List.map_congr_left
      intro r _
      show LedgerRow.name (if _ then _ else _) = _
      split <;> rfl
    rw [heq]
  | rekey name name' => exact absurd ⟨name, name', rfl⟩ hw

theorem Write.names_getD {w : Write} (hw : ¬w.IsRekey) :
    names L <+: names ((w.result key L).getD L) := by
  cases h : w.result key L with
  | none    => exact List.prefix_rfl
  | some L' => exact Write.names_result hw h

/-- An entry that re-keys no row. -/
def Entry.Keeps : Entry ι → Prop
  | .statement _ _ _ => True
  | .wrote _ w       => ¬w.IsRekey

theorem names_foldl (hJ : ∀ e ∈ J, e.Keeps) (L : List LedgerRow) :
    names L <+: names (J.foldl (Entry.onLedger key) L) := by
  induction J generalizing L with
  | nil => exact List.prefix_rfl
  | cons e J ih =>
    refine List.IsPrefix.trans ?_ (ih (fun e' he' => hJ e' (List.mem_cons_of_mem e he')) _)
    cases e with
    | statement i file text => exact List.prefix_rfl
    | wrote i w => exact Write.names_getD (hJ _ List.mem_cons_self)

/-- No two rows have the same key. -/
def NameKey.Unique (key : NameKey) (L : List LedgerRow) : Prop :=
  (L.map (fun r => key.weight r.name)).Nodup

theorem unique_append (h : key.Unique L) {row : LedgerRow} (hrow : ¬key.Holds L row.name) :
    key.Unique (L ++ [row]) := by
  unfold NameKey.Unique
  rw [List.map_append, List.nodup_append]
  refine ⟨h, List.nodup_singleton _, ?_⟩
  intro a ha b hb heq
  obtain ⟨r, hr, rfl⟩ := List.mem_map.mp ha
  rw [List.map_singleton, List.mem_singleton] at hb
  exact hrow ⟨r, hr, heq.trans hb⟩

theorem Write.unique_result {w : Write} (h : key.Unique L) (hw : w.result key L = some L') :
    key.Unique L' := by
  cases w with
  | apply row | baseline row =>
    simp only [Write.result] at hw
    split at hw
    · cases hw
    · rename_i hnew
      rw [← Option.some.inj hw]
      exact unique_append h hnew
  | ensure row =>
    simp only [Write.result, Option.some.injEq] at hw
    subst hw
    split
    · exact h
    · rename_i hnew
      exact unique_append h hnew
  | rebaseline name checksum =>
    simp only [Write.result, Option.some.injEq] at hw
    subst hw
    unfold NameKey.Unique at h ⊢
    rw [List.map_map]
    convert h using 1
    apply List.map_congr_left
    intro r _
    show key.weight (LedgerRow.name (if _ then _ else _)) = _
    split <;> rfl
  | rekey name name' =>
    simp only [Write.result] at hw
    split at hw
    · cases hw
    · rename_i hclash
      rw [← Option.some.inj hw]
      unfold NameKey.Unique at h ⊢
      rw [List.map_map, List.Nodup, List.pairwise_map]
      rw [List.Nodup, List.pairwise_map] at h
      refine h.imp_of_mem ?_
      intro a b ha hb hab
      show key.weight (LedgerRow.name (if _ then _ else _)) ≠
        key.weight (LedgerRow.name (if _ then _ else _))
      -- one of the two at most has the old key, and no third row has the new one
      by_cases hold : key.weight a.name = key.weight name
      · have hb' : key.weight b.name ≠ key.weight name := fun heq => hab (hold.trans heq.symm)
        rw [if_pos hold, if_neg hb']
        exact fun heq => hclash ⟨b, hb, hb', heq.symm⟩
      · rw [if_neg hold]
        split
        · exact fun heq => hclash ⟨a, ha, hold, heq⟩
        · exact hab

theorem unique_foldl (J : List (Entry ι)) (h : key.Unique L) :
    key.Unique (J.foldl (Entry.onLedger key) L) := by
  induction J generalizing L with
  | nil => exact h
  | cons e J ih =>
    apply ih
    cases e with
    | statement i file text => exact h
    | wrote i w =>
      show key.Unique ((w.result key L).getD L)
      cases hw : w.result key L with
      | none    => exact h
      | some L' => exact Write.unique_result h hw

/-- The primary key holds of every ledger a journal can write. -/
theorem unique_replay (J : List (Entry ι)) : key.Unique (replay key J) :=
  unique_foldl J List.nodup_nil

/-- Two rows of one key are one row. -/
theorem NameKey.Unique.eq (h : key.Unique L) {r r' : LedgerRow} (hr : r ∈ L) (hr' : r' ∈ L)
    (heq : key.weight r.name = key.weight r'.name) : r = r' :=
  List.inj_on_of_nodup_map h hr hr' heq

end Replay

/-! ## Section 3: What a serial journal tells -/

/-- An entry of a list put together from two stands in the one or in the other. -/
theorem split_append {α : Type} {pre post front back : List α} {e : α}
    (h : front ++ back = pre ++ e :: post) :
    (∃ post', front = pre ++ e :: post') ∨
      ∃ pre', pre = front ++ pre' ∧ back = pre' ++ e :: post := by
  rcases List.append_eq_append_iff.mp h with ⟨rest, hpre, hback⟩ | ⟨rest, hfront, hpost⟩
  · exact .inr ⟨rest, hpre, hback⟩
  · cases rest with
    | nil => exact .inr ⟨[], by simpa using hfront.symm, hpost.symm⟩
    | cons e' rest =>
      rw [List.cons_append, List.cons.injEq] at hpost
      exact .inl ⟨rest, by rw [hfront, hpost.1]⟩

namespace Serial

variable {key} {procs} {J : List (Entry ι)}

/-- No turn re-keys a row. -/
theorem keeps (h : Serial key procs J) : ∀ e ∈ J, e.Keeps := by
  have hstatements : ∀ (i : ι) (file : String) (texts : List (List Char)),
      ∀ e ∈ texts.map (Entry.statement i file), e.Keeps := by
    intro i file texts e he
    obtain ⟨text, -, rfl⟩ := List.mem_map.mp he
    trivial
  have hwrote : ∀ (i : ι) {w : Write}, ¬w.IsRekey → ∀ e ∈ [Entry.wrote i w], e.Keeps := by
    intro i w hw e he
    rw [List.mem_singleton.mp he]
    exact hw
  induction h with
  | start =>
    intro e he
    cases he
  | attempt i h hclears hnew hbegun ih =>
    exact List.forall_mem_append.mpr ⟨ih, hstatements i _ _⟩
  | apply i h hclears hnew ih =>
    exact List.forall_mem_append.mpr ⟨ih, List.forall_mem_append.mpr
      ⟨hstatements i _ _, hwrote i (fun ⟨_, _, hw⟩ => by cases hw)⟩⟩
  | baseline i h hread hskip hnew ih =>
    exact List.forall_mem_append.mpr ⟨ih, hwrote i (fun ⟨_, _, hw⟩ => by cases hw)⟩
  | rebaseline i h hrow hpinned ih =>
    exact List.forall_mem_append.mpr ⟨ih, hwrote i (fun ⟨_, _, hw⟩ => by cases hw)⟩
  | seed i h hrows ih =>
    refine List.forall_mem_append.mpr ⟨ih, ?_⟩
    intro e he
    obtain ⟨row, -, rfl⟩ := List.mem_map.mp he
    exact fun ⟨_, _, hw⟩ => by cases hw

/-- A name that is in the ledger stays there. -/
theorem names_of_split (h : Serial key procs J) {A B C : List (Entry ι)} (hJ : J = A ++ B ++ C) :
    names (replay key A) <+: names (replay key (A ++ B)) := by
  rw [replay_append]
  apply names_foldl
  intro e he
  apply h.keeps
  rw [hJ]
  exact List.mem_append_left C (List.mem_append_right A he)

theorem names_replay {J' : List (Entry ι)} (h : Serial key procs (J ++ J')) :
    names (replay key J) <+: names (replay key (J ++ J')) :=
  h.names_of_split (C := []) (List.append_nil _).symm

/-- The statements sent before one of the same turn are the ones before it in its file. -/
theorem begun_of_split {i : ι} {file : String} {texts : List (List Char)} {pre post : List (Entry ι)}
    {i' : ι} {file' : String} {text : List Char}
    (h : texts.map (Entry.statement i file) = pre ++ .statement i' file' text :: post) :
    i' = i ∧ file' = file ∧ ∃ before, pre = before.map (.statement i file) ∧
      before ++ [text] <+: texts := by
  obtain ⟨before, after, rfl, rfl, hafter⟩ := List.map_eq_append_iff.mp h
  obtain ⟨text', rest, rfl, hentry, -⟩ := List.map_eq_cons_iff.mp hafter
  injection hentry with hi hfile htext
  subst htext
  exact ⟨hi.symm, hfile.symm, before, rfl, rest, by simp⟩

/-- A statement is only ever sent behind the ones before it in its file, and while the
    ledger does not hold its name. -/
theorem statement_of_split (h : Serial key procs J) {pre post : List (Entry ι)} {i : ι}
    {file : String} {text : List Char} (hJ : J = pre ++ .statement i file text :: post) :
    ∃ pre' before raw, pre = pre' ++ before.map (.statement i file) ∧
      before ++ [text] <+: splitSqlStatements raw ∧ (procs i).Clears file raw ∧
      file ∉ names (replay key pre) := by
  induction h generalizing post with
  | start => exact absurd hJ (by simp)
  -- the statement is one of an earlier turn, or of this one
  | @attempt J i' file' raw texts h hclears hnew hbegun ih =>
    rcases split_append hJ with ⟨post', hfront⟩ | ⟨pre', rfl, hback⟩
    · exact ih hfront
    · obtain ⟨rfl, rfl, before, rfl, hbefore⟩ := begun_of_split hback
      refine ⟨J, before, raw, rfl, hbefore.trans hbegun, hclears, ?_⟩
      rw [replay_statements]
      exact hnew
  | @apply J i' file' raw h hclears hnew ih =>
    rcases split_append hJ with ⟨post', hfront⟩ | ⟨pre', rfl, hback⟩
    · exact ih hfront
    · rcases split_append hback with ⟨post', hturn⟩ | ⟨pre'', rfl, hrow⟩
      · obtain ⟨rfl, rfl, before, rfl, hbefore⟩ := begun_of_split hturn
        refine ⟨J, before, raw, rfl, hbefore, hclears, ?_⟩
        rw [replay_statements]
        exact fun hmem => hnew (NameKey.holds_of_mem hmem)
      -- the row at the end of the turn is no statement
      · cases pre'' <;> simp at hrow
  | baseline i' h hread hskip hnew ih | rebaseline i' h hrow hpinned ih =>
    rcases split_append hJ with ⟨post', hfront⟩ | ⟨pre', rfl, hback⟩
    · exact ih hfront
    · cases pre' <;> simp at hback
  | seed i' h hrows ih =>
    rcases split_append hJ with ⟨post', hfront⟩ | ⟨pre', rfl, hback⟩
    · exact ih hfront
    · have hmem : Entry.statement i file text ∈ pre' ++ .statement i file text :: post := by simp
      rw [← hback] at hmem
      obtain ⟨row, -, hrow⟩ := List.mem_map.mp hmem
      cases hrow

theorem wrote_not_mem_statements {i : ι} {file : String} {texts : List (List Char)}
    {pre post : List (Entry ι)} {i' : ι} {w : Write} :
    texts.map (Entry.statement i file) ≠ pre ++ .wrote i' w :: post := by
  intro heq
  have hmem : Entry.wrote i' w ∈ pre ++ .wrote i' w :: post := by simp
  rw [← heq] at hmem
  obtain ⟨text, -, htext⟩ := List.mem_map.mp hmem
  cases htext

/-- A row that says a file was applied stands right behind all statements of the file. -/
theorem apply_of_split (h : Serial key procs J) {pre post : List (Entry ι)} {i : ι}
    {row : LedgerRow} (hJ : J = pre ++ .wrote i (.apply row) :: post) :
    ∃ pre' raw, pre = pre' ++ (splitSqlStatements raw).map (.statement i row.name) ∧
      (procs i).Clears row.name raw ∧ row = (procs i).release.row row.name raw ∧
      ¬key.Holds (replay key pre) row.name := by
  induction h generalizing post with
  | start => exact absurd hJ (by simp)
  | attempt i' h hclears hnew hbegun ih =>
    rcases split_append hJ with ⟨post', hfront⟩ | ⟨pre', rfl, hback⟩
    · exact ih hfront
    · exact absurd hback wrote_not_mem_statements
  | @apply J i' file' raw h hclears hnew ih =>
    rcases split_append hJ with ⟨post', hfront⟩ | ⟨pre', rfl, hback⟩
    · exact ih hfront
    · rcases split_append hback with ⟨post', hturn⟩ | ⟨pre'', rfl, hrow⟩
      · exact absurd hturn wrote_not_mem_statements
      · cases pre'' with
        -- it is the row of this turn, so all statements of the turn stand before it
        | nil =>
          obtain ⟨hentry, -⟩ := List.cons.inj hrow
          injection hentry with hi hw
          injection hw with hw
          subst hi hw
          refine ⟨J, raw, by rw [List.append_nil]; rfl, hclears, rfl, ?_⟩
          rw [List.append_nil, replay_statements]
          exact hnew
        | cons e pre'' => simp at hrow
  | baseline i' h hread hskip hnew ih =>
    rcases split_append hJ with ⟨post', hfront⟩ | ⟨pre', rfl, hback⟩
    · exact ih hfront
    · cases pre' <;> simp at hback
  | rebaseline i' h hrow hpinned ih =>
    rcases split_append hJ with ⟨post', hfront⟩ | ⟨pre', rfl, hback⟩
    · exact ih hfront
    · cases pre' <;> simp at hback
  | seed i' h hrows ih =>
    rcases split_append hJ with ⟨post', hfront⟩ | ⟨pre', rfl, hback⟩
    · exact ih hfront
    · have hmem : Entry.wrote i (.apply row) ∈ pre' ++ .wrote i (.apply row) :: post := by simp
      rw [← hback] at hmem
      obtain ⟨row', -, hrow⟩ := List.mem_map.mp hmem
      cases hrow

/-- A file that is in the ledger is settled: nobody runs or records it again. -/
theorem settled {A B : List (Entry ι)} (h : Serial key procs (A ++ B)) {file : String}
    (hfile : file ∈ names (replay key A)) (i : ι) :
    (∀ text, .statement i file text ∉ B) ∧
      ∀ row : LedgerRow, row.name = file → .wrote i (.apply row) ∉ B := by
  constructor
  · intro text hmem
    -- a statement is sent while the ledger does not hold the file, and names only ever come
    obtain ⟨mid, post, rfl⟩ := List.append_of_mem hmem
    rw [← List.append_assoc] at h
    obtain ⟨-, -, -, -, -, -, hnew⟩ := h.statement_of_split rfl
    exact hnew ((h.names_of_split rfl).subset hfile)
  · rintro row rfl hmem
    obtain ⟨mid, post, rfl⟩ := List.append_of_mem hmem
    rw [← List.append_assoc] at h
    obtain ⟨-, -, -, -, -, hnew⟩ := h.apply_of_split rfl
    exact hnew (NameKey.holds_of_mem ((h.names_of_split rfl).subset hfile))

/-- The row of an applied file is in the ledger at once. -/
theorem recorded_of_apply (h : Serial key procs J) {pre post : List (Entry ι)} {i : ι}
    {row : LedgerRow} (hJ : J = pre ++ .wrote i (.apply row) :: post) :
    row.name ∈ names (replay key (pre ++ [.wrote i (.apply row)])) := by
  obtain ⟨-, -, -, -, -, hnew⟩ := h.apply_of_split hJ
  have hresult : (Write.apply row).result key (replay key pre) = some (replay key pre ++ [row]) :=
    if_neg hnew
  rw [replay_wrote, hresult]
  simp [names]

/-- The rows of a database built from empty are written all together. -/
theorem ensure_of_mem (h : Serial key procs J) {i : ι} {row : LedgerRow}
    (hrow : .wrote i (.ensure row) ∈ J) :
    ∃ pre rows post, J = pre ++ rows.map (fun row => .wrote i (.ensure row)) ++ post ∧
      row ∈ rows ∧ (procs i).release.Lists rows := by
  -- a whole seed stays whole behind later turns
  have hlater : ∀ {J B : List (Entry ι)},
      (∃ pre rows post, J = pre ++ rows.map (fun row => Entry.wrote i (.ensure row)) ++ post ∧
        row ∈ rows ∧ (procs i).release.Lists rows) →
      ∃ pre rows post, J ++ B = pre ++ rows.map (fun row => .wrote i (.ensure row)) ++ post ∧
        row ∈ rows ∧ (procs i).release.Lists rows := by
    intro J B hJ
    obtain ⟨pre, rows, post, rfl, hmem, hlists⟩ := hJ
    exact ⟨pre, rows, post ++ B, by rw [← List.append_assoc], hmem, hlists⟩
  induction h with
  | start => cases hrow
  | attempt i' h hclears hnew hbegun ih =>
    rcases List.mem_append.mp hrow with hrow | hrow
    · exact hlater (ih hrow)
    · obtain ⟨text, -, htext⟩ := List.mem_map.mp hrow
      cases htext
  | apply i' h hclears hnew ih =>
    rcases List.mem_append.mp hrow with hrow | hrow
    · exact hlater (ih hrow)
    · rcases List.mem_append.mp hrow with hrow | hrow
      · obtain ⟨text, -, htext⟩ := List.mem_map.mp hrow
        cases htext
      · cases List.mem_singleton.mp hrow
  | baseline i' h hread hskip hnew ih =>
    rcases List.mem_append.mp hrow with hrow | hrow
    · exact hlater (ih hrow)
    · cases List.mem_singleton.mp hrow
  | rebaseline i' h hrow' hpinned ih =>
    rcases List.mem_append.mp hrow with hrow | hrow
    · exact hlater (ih hrow)
    · cases List.mem_singleton.mp hrow
  | @seed J i' rows h hrows ih =>
    rcases List.mem_append.mp hrow with hrow | hrow
    · exact hlater (ih hrow)
    · obtain ⟨row', hmem, hentry⟩ := List.mem_map.mp hrow
      injection hentry with hi hw
      injection hw with hw
      subst hi hw
      exact ⟨J, rows, [], by rw [List.append_nil], hmem, hrows⟩

end Serial

end XChainDecoder.Migrate
