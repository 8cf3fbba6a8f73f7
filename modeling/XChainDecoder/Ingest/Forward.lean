import XChainDecoder.Ingest.Pass

/-! # Forward runs

    The decoder without reorgs, as a state machine: a block is opened, its
    transactions are ingested one after the other, the block is closed, and
    between two blocks the statements of a purge may run. A pass that is rolled
    back leaves no trace, so it is no step here.

    `Draft.ingestBlock` is a run from one block boundary to the next
    (`run_block`). -/

namespace XChainDecoder

/-! ## Section 1: States and actions -/

/-- The block whose pass is under way. -/
structure CurrentBlock (weight : String → String) where
  head        : BlockHead
  block       : RawBlock
  quarantined : Nat → Bool
  /-- how many of its transactions are ingested -/
  position    : Nat
  /-- the tables the block was opened on -/
  before      : Tables weight

/-- A state of a forward run. -/
structure Forward (weight : String → String) where
  draft    : Draft weight
  current  : Option (CurrentBlock weight)
  /-- the times of the blocks opened so far, oldest first -/
  resolved : List BlockTimeContext

/-- The two statements of a purge are actions of their own: either may fail. -/
inductive Action where
  | openBlock (quarantined : Nat → Bool) (hash : Hash) (block : RawBlock) (lastTxIndex : Int)
  | ingestTransaction
  | closeBlock
  | purgeDispensers
  | purgeUndo

namespace Forward

variable {cfg : Config}

/-- A database that has just been created. -/
def init (weight : String → String) : Forward weight where
  draft    := ⟨Tables.fresh weight, -1, []⟩
  current  := none
  resolved := []

/-- The height of the next block. -/
def nextBlockHeight (cfg : Config) (s : Forward cfg.weight) : Int :=
  cfg.startBlockIndex + s.resolved.length

/-- What the block of a height resolved. -/
def timesAt (cfg : Config) (s : Forward cfg.weight) (n : Int) : Option BlockTimeContext :=
  if n < cfg.startBlockIndex then none else s.resolved[(n - cfg.startBlockIndex).toNat]?

/-- The height a purge after the last block spares nothing above. -/
def safeHeight (cfg : Config) (s : Forward cfg.weight) : Int :=
  s.nextBlockHeight cfg - 1 - cfg.safeDepth

/-- The floor a purge after the last block goes by. -/
def purgeFloor (rules : Rules) (s : Forward cfg.weight) : Option Int :=
  s.resolved.getLast?.bind (fun times => purgeGraceFloor rules times.protocolBlockTime)

/-- Replace the chain rows. -/
def setRows (s : Forward cfg.weight) (f : ChainRows → ChainRows) : Forward cfg.weight :=
  { s with draft := s.draft.write (fun t => { t with toChainRows := f t.toChainRows }) }

/-- The state once the block is opened with the draft `d`. -/
def opened (rules : Rules) (s : Forward cfg.weight) (quarantined : Nat → Bool) (hash : Hash)
    (block : RawBlock) (d : Draft cfg.weight) : Forward cfg.weight :=
  let times := Draft.timesOf rules (s.nextBlockHeight cfg) block s.draft.tables
  { draft    := d
    current  := some ⟨⟨s.nextBlockHeight cfg, hash, times.protocolBlockTime⟩, block, quarantined, 0,
      s.draft.tables⟩
    resolved := s.resolved ++ [times] }

/-- The state once one more transaction of `b` is ingested. -/
def ingested (s : Forward cfg.weight) (b : CurrentBlock cfg.weight) (d : Draft cfg.weight) :
    Forward cfg.weight :=
  { s with draft := d, current := some { b with position := b.position + 1 } }

/-- The state once the block is closed. -/
def closed (rules : Rules) (s : Forward cfg.weight) (b : CurrentBlock cfg.weight) :
    Forward cfg.weight :=
  { s with draft := s.draft.closeBlock rules b.head.blockIndex b.head.time, current := none }

/-- One step; `none` where the action is not enabled, or its pass rolls back. -/
def step (rules : Rules) (a : Action) (s : Forward cfg.weight) : Option (Forward cfg.weight) :=
  match a, s.current with
  | .openBlock quarantined hash block lastTxIndex, none =>
      (Draft.openBlock rules (s.nextBlockHeight cfg) hash block s.draft.tables lastTxIndex).map
        (s.opened rules quarantined hash block)
  | .ingestTransaction, some b =>
      b.block.transactions[b.position]?.bind (fun tx =>
        (s.draft.ingestTransaction rules b.head (b.quarantined b.position) b.position tx).map
          (s.ingested b))
  | .closeBlock, some b =>
      if b.position = b.block.transactions.length then some (s.closed rules b) else none
  | .purgeDispensers, none =>
      if s.safeHeight cfg < 0 then none
      else some (s.setRows (·.purgeRows (s.safeHeight cfg) (s.purgeFloor rules)))
  | .purgeUndo, none =>
      if s.safeHeight cfg < 0 then none else some (s.setRows (·.purgeUndo (s.safeHeight cfg)))
  | _, _ => none

/-- A run, oldest action first. -/
def run (rules : Rules) : List Action → Forward cfg.weight → Option (Forward cfg.weight)
  | [],      s => some s
  | a :: as, s => (step rules a s).bind (run rules as)

/-! ## Section 2: What one step does -/

variable {rules : Rules} {a : Action} {as bs : List Action} {s s' s'' : Forward cfg.weight}

/-- The steps, with everything each of them checks. -/
inductive Step (rules : Rules) (s : Forward cfg.weight) : Action → Forward cfg.weight → Prop where
  | openBlock {quarantined : Nat → Bool} {hash : Hash} {block : RawBlock} {lastTxIndex : Int}
      {d : Draft cfg.weight} (hcurrent : s.current = none)
      (hopen : Draft.openBlock rules (s.nextBlockHeight cfg) hash block s.draft.tables lastTxIndex =
        some d) :
      Step rules s (.openBlock quarantined hash block lastTxIndex)
        (s.opened rules quarantined hash block d)
  | ingestTransaction {b : CurrentBlock cfg.weight} {tx : RawTransaction} {d : Draft cfg.weight}
      (hcurrent : s.current = some b) (htx : b.block.transactions[b.position]? = some tx)
      (hingest : s.draft.ingestTransaction rules b.head (b.quarantined b.position) b.position tx =
        some d) :
      Step rules s .ingestTransaction (s.ingested b d)
  | closeBlock {b : CurrentBlock cfg.weight} (hcurrent : s.current = some b)
      (hall : b.position = b.block.transactions.length) :
      Step rules s .closeBlock (s.closed rules b)
  | purgeDispensers (hcurrent : s.current = none) (hsafe : 0 ≤ s.safeHeight cfg) :
      Step rules s .purgeDispensers
        (s.setRows (·.purgeRows (s.safeHeight cfg) (s.purgeFloor rules)))
  | purgeUndo (hcurrent : s.current = none) (hsafe : 0 ≤ s.safeHeight cfg) :
      Step rules s .purgeUndo (s.setRows (·.purgeUndo (s.safeHeight cfg)))

theorem step_cases (h : step rules a s = some s') : Step rules s a s' := by
  unfold step at h
  cases hcurrent : s.current with
  | none =>
    cases a with
    | openBlock quarantined hash block lastTxIndex =>
      simp only [hcurrent, Option.map_eq_some_iff] at h
      rcases h with ⟨d, hopen, rfl⟩
      exact .openBlock hcurrent hopen
    | ingestTransaction => simp [hcurrent] at h
    | closeBlock => simp [hcurrent] at h
    -- a purge runs between two blocks, and not before the safe height is a height
    | purgeDispensers =>
      by_cases hsafe : s.safeHeight cfg < 0
      · simp [hcurrent, hsafe] at h
      · simp only [hcurrent, hsafe, if_false, Option.some.injEq] at h
        rw [← h]
        exact .purgeDispensers hcurrent (by omega)
    | purgeUndo =>
      by_cases hsafe : s.safeHeight cfg < 0
      · simp [hcurrent, hsafe] at h
      · simp only [hcurrent, hsafe, if_false, Option.some.injEq] at h
        rw [← h]
        exact .purgeUndo hcurrent (by omega)
  | some b =>
    cases a with
    | openBlock quarantined hash block lastTxIndex => simp [hcurrent] at h
    | ingestTransaction =>
      simp only [hcurrent] at h
      rcases Option.bind_eq_some_iff.mp h with ⟨tx, htx, h⟩
      rcases Option.map_eq_some_iff.mp h with ⟨d, hingest, rfl⟩
      exact .ingestTransaction hcurrent htx hingest
    -- a block closes behind its last transaction
    | closeBlock =>
      by_cases hall : b.position = b.block.transactions.length
      · simp only [hcurrent, hall, if_true, Option.some.injEq] at h
        rw [← h]
        exact .closeBlock hcurrent hall
      · simp [hcurrent, hall] at h
    | purgeDispensers => simp [hcurrent] at h
    | purgeUndo => simp [hcurrent] at h

/-- A block adds its own times and leaves those of the blocks below alone. -/
theorem timesAt_append {times : BlockTimeContext} (h : s'.resolved = s.resolved ++ [times]) (n : Int) :
    s'.timesAt cfg n = if n = s.nextBlockHeight cfg then some times else s.timesAt cfg n := by
  unfold timesAt nextBlockHeight
  rw [h]
  by_cases hlow : n < cfg.startBlockIndex
  · have hne : ¬ n = cfg.startBlockIndex + s.resolved.length := by omega
    simp [hlow, hne]
  · by_cases hold : (n - cfg.startBlockIndex).toNat < s.resolved.length
    · have hne : ¬ n = cfg.startBlockIndex + s.resolved.length := by omega
      simp [hlow, hne, List.getElem?_append_left hold]
    · by_cases hnew : n = cfg.startBlockIndex + s.resolved.length
      · simp [hnew]
      · have hpast : (s.resolved ++ [times]).length ≤ (n - cfg.startBlockIndex).toNat := by
          simp only [List.length_append, List.length_singleton]
          omega
        simp [hlow, hnew, List.getElem?_eq_none hpast, List.getElem?_eq_none (Nat.le_of_not_lt hold)]

theorem timesAt_congr (h : s'.resolved = s.resolved) (n : Int) :
    s'.timesAt cfg n = s.timesAt cfg n := by
  unfold timesAt
  rw [h]

/-! ## Section 3: Runs -/

@[simp] theorem run_nil : run rules [] s = some s := rfl

@[simp] theorem run_cons : run rules (a :: as) s = (step rules a s).bind (run rules as) := rfl

theorem run_append : run rules (as ++ bs) s = (run rules as s).bind (run rules bs) := by
  induction as generalizing s with
  | nil => simp
  | cons a as ih =>
    cases h : step rules a s with
    | none => simp [h]
    | some s₁ => simp [h, ih]

theorem run_snoc : run rules (as ++ [a]) s = (run rules as s).bind (step rules a) := by
  rw [run_append]
  cases h : run rules as s with
  | none => simp
  | some s₁ =>
    cases h₁ : step rules a s₁ with
    | none => simp [h₁]
    | some s₂ => simp [h₁]

/-- What every step of a run preserves holds at its end. -/
theorem run_invariant {P : Forward cfg.weight → Prop} (h : run rules as s = some s') (hs : P s)
    (hstep : ∀ a s s', Step rules s a s' → P s → P s') : P s' := by
  induction as generalizing s with
  | nil =>
    simp only [run_nil, Option.some.injEq] at h
    rwa [← h]
  | cons a as ih =>
    rcases Option.bind_eq_some_iff.mp h with ⟨s₁, h₁, hrest⟩
    exact ih hrest (hstep a s s₁ (step_cases h₁) hs)

/-- What holds at the start and is preserved by every step holds in every state. -/
theorem reachable_invariant {P : Forward cfg.weight → Prop}
    (h : run rules as (init cfg.weight) = some s) (hinit : P (init cfg.weight))
    (hstep : ∀ a s s', Step rules s a s' → P s → P s') : P s :=
  run_invariant h hinit hstep

/-! ## Section 4: A block is a run -/

/-- The transactions of a block from a position on, one action each. -/
theorem run_ingestTransactions {b : CurrentBlock cfg.weight} {d : Draft cfg.weight}
    (txs : List RawTransaction) (hcurrent : s.current = some b)
    (htxs : b.block.transactions.drop b.position = txs)
    (hingest : s.draft.ingestTransactions rules b.head b.quarantined b.position txs = some d) :
    run rules (List.replicate txs.length .ingestTransaction) s =
      some { s with draft := d, current := some { b with position := b.position + txs.length } } := by
  induction txs generalizing s b with
  | nil =>
    simp only [Draft.ingestTransactions, Option.some.injEq] at hingest
    simp [← hingest, ← hcurrent]
  | cons tx txs ih =>
    rcases Option.bind_eq_some_iff.mp hingest with ⟨d₁, hfirst, hrest⟩
    have htx : b.block.transactions[b.position]? = some tx := by
      have hhead := congrArg List.head? htxs
      simpa [List.head?_drop] using hhead
    have hdrop : b.block.transactions.drop (b.position + 1) = txs := by
      have htail := congrArg List.tail htxs
      simpa [List.tail_drop] using htail
    have hstep : step rules .ingestTransaction s = some (s.ingested b d₁) := by
      simp [step, hcurrent, htx, hfirst]
    have hrun := ih (s := s.ingested b d₁) (b := { b with position := b.position + 1 }) rfl hdrop hrest
    simp only [List.length_cons, List.replicate_succ, run_cons, hstep, Option.bind_some, hrun]
    simp [ingested, Nat.add_assoc, Nat.add_comm 1]

/-- **Main theorem.** The pass of a block is a run from one boundary to the
    next. -/
theorem run_block {quarantined : Nat → Bool} {hash : Hash} {block : RawBlock} {lastTxIndex : Int}
    {d : Draft cfg.weight} (hcurrent : s.current = none)
    (h : Draft.ingestBlock rules quarantined (s.nextBlockHeight cfg) hash block s.draft.tables
      lastTxIndex = some d) :
    run rules (.openBlock quarantined hash block lastTxIndex ::
        (List.replicate block.transactions.length .ingestTransaction ++ [.closeBlock])) s =
      some { draft := d, current := none, resolved := s.resolved ++
        [Draft.timesOf rules (s.nextBlockHeight cfg) block s.draft.tables] } := by
  rcases Option.bind_eq_some_iff.mp h with ⟨d₁, hopen, h⟩
  rcases Option.bind_eq_some_iff.mp h with ⟨d₂, hingest, h⟩
  simp only [Option.pure_def, Option.some.injEq] at h
  have hstep : step rules (.openBlock quarantined hash block lastTxIndex) s =
      some (s.opened rules quarantined hash block d₁) := by
    simp [step, hcurrent, hopen]
  have hrun := run_ingestTransactions (s := s.opened rules quarantined hash block d₁)
    block.transactions rfl rfl hingest
  rw [run_cons, hstep, Option.bind_some, run_append, hrun]
  simp [step, opened, closed, ← h]

end Forward

/-! ## Section 5: Rules to run -/

namespace Sample

/-- A network with every gate active, whose transactions create a dispenser or
    edit one. -/
def rules (mtp : Bool) : Rules where
  protocolTimeMtp             := mtp
  cancelGraceActivation       := some 0
  cancelGraceParentActivation := some 0
  purgeGraceActivation        := some 0
  expiryRealignActivation     := some 0
  addressIdCollapseActivation := some 0
  feeDestination              := none
  parseTransaction tx _ _     :=
    if tx.bytes = [] then .nothing
    else .result ⟨tx.bytes, tx.bytes.length, none, some "source", none, none, [], [], 0⟩
  idError _                   := ""
  canonicalAction data        := (if data = [1] then "CREATE" else "EDIT", true)
  captureCommands text _      := [text]
  oracleRequest _ _           := .none
  dispenserCreates commands source _ :=
    if commands = ["CREATE"] then [⟨some "dispenser", source, none, 5000⟩] else []
  dispenserEdit command source _ :=
    if command = "EDIT" then source.map (fun s => (s, 9000)) else none
  rejectsRow _ _ _ _ _        := false

/-- Open a block of these transactions, ingest them and close it. -/
def ingestAll (timestamp : Int) (transactions : List RawTransaction) (lastTxIndex : Int) :
    List Action :=
  .openBlock (fun _ => false) hashA ⟨hashA, timestamp, transactions⟩ lastTxIndex ::
    (transactions.map (fun _ => .ingestTransaction) ++ [.closeBlock])

end Sample

end XChainDecoder
