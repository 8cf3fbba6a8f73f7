import XChainDecoder.World

/-! # Awaits

    The calls the decoder makes to the outside, each an await of the process.
    At every await the process may be killed, and a health probe that runs
    beside the loop may come back with what it read of the halt marker
    (`checkReorgHalt`); nothing else of the state changes there.

    `HaltSound` is what ties the halt fields to the `events` table: a marker the
    process believes durable has been read, and a marker that has been read is
    a row. -/

namespace XChainDecoder

/-! ## Section 1: Health probes -/

/-- A halt this process raised but could not record outlives an answer without one. -/
def Memory.keepsHalt (mem : Memory) (marker : Tables.HaltState) : Bool :=
  mem.reorgHalted && mem.reorgHaltMarkerPersisted = some false && !marker.halted

/-- What `checkReorgHalt` does with the marker it has read: adopt the answer, and
    have the loop re-run the boot park check on a first sighting. -/
def Memory.adoptMarker (mem : Memory) (now : Nat) (marker : Tables.HaltState) : Memory :=
  if mem.keepsHalt marker then
    { mem with reorgHaltProbeFailed := false, reorgHaltCheckedAt := now }
  else
    { mem with
      reorgHaltProbeFailed := false
      reorgHalted := marker.halted
      reorgHaltReason := marker.reason
      reorgHaltCheckedAt := now
      reorgHaltMarkerPersisted :=
        if marker.halted then some true else mem.reorgHaltMarkerPersisted
      reorgHaltParkCheckDue :=
        mem.reorgHaltParkCheckDue || (marker.halted && !mem.reorgHalted) }

/-- Whether the cached answer has expired, so that an un-forced probe reads. -/
def Memory.probeDue (mem : Memory) (now : Nat) : Bool :=
  mem.reorgHaltCheckedAt = 0 || REORG_HALT_PROBE_INTERVAL_MS ≤ now - mem.reorgHaltCheckedAt

/-- An answer without a halt may end a park only if it was read during it. -/
def ParkWatch.adopts (watch : ParkWatch) (parked : Bool) (r : Reading) : ParkWatch :=
  if r.marker.halted then watch
  else if parked then
    { watch with
      misled := watch.misled || r.outdated, released := watch.released || !r.outdated }
  else { watch with misled := watch.misled || watch.parking }

/-- A probe that answers adopts the marker it has read; a live one is durable by
    observation. -/
def World.adoptReading {weight : String → String} (w : World weight) (r : Reading) :
    World weight :=
  { w with
    mem := w.mem.adoptMarker r.issuedAt r.marker
    inFlight := none
    haltConfirmed := w.haltConfirmed || r.marker.halted
    watch := if w.mem.keepsHalt r.marker then w.watch
      else w.watch.adopts w.mem.reorgHaltParked r }

/-- What a probe issued now reads. -/
def World.readMarker {weight : String → String} (w : World weight) (now : Nat) : Reading :=
  ⟨w.view.readReorgHaltState, now, false⟩

/-- A probe that fails keeps the last known state. -/
def World.failProbe {weight : String → String} (w : World weight) : World weight :=
  { w with mem := { w.mem with reorgHaltProbeFailed := true }, inFlight := none }

/-- What the health probe does at an await; at most one is in flight. -/
def World.probes {weight : String → String} (w : World weight) (probe : Probe) (now : Nat) :
    World weight :=
  match probe, w.inFlight with
  | .none,   _      => w
  | .failed, some _ => w.failProbe
  | .failed, none   => if w.mem.probeDue now then w.failProbe else w
  | .issued, some _ => w
  | .issued, none   =>
      if w.mem.probeDue now then { w with inFlight := some (w.readMarker now) } else w
  | .reads,  some r => w.adoptReading r
  | .reads,  none   =>
      if w.mem.probeDue now then w.adoptReading (w.readMarker now) else w

/-- The state once an await is over. -/
def World.tock {weight : String → String} (env : Env) (w : World weight) : World weight :=
  { w.probes (env.probe w.tick) (env.now w.tick) with tick := w.tick + 1 }

/-! ## Section 2: Calls -/

section Calls

variable {cfg : Config} {α : Type}

def await : Decoder cfg Unit := fun env w =>
  if env.crashes w.tick then (.error .crashed, w) else (.ok (), w.tock env)

/-- Await what the environment answers here. -/
def answered (f : Env → Nat → α) : Decoder cfg α := fun env w =>
  if env.crashes w.tick then (.error .crashed, w) else (.ok (f env w.tick), w.tock env)

def sleep : Decoder cfg Unit := await

/-- The pause of a retry loop, with `n` attempts still to come. -/
def pauseBefore (n : Nat) : Decoder cfg Unit := if n = 0 then pure () else sleep

def observe (o : Observed cfg.weight) : Decoder cfg Unit :=
  modify (fun w => { w with log := o :: w.log })

/-- Throw an error that carries no tag. -/
def fail (message : Message) : Decoder cfg α := throw { message }

/-- A query on the loop's connection: it throws once its own retries are used up. -/
def query (f : Tables cfg.weight → α) : Decoder cfg α := do
  let fails ← answered Env.dbFails
  if fails then fail .database
  else return f (← get).view

/-- `acquireTransactionLock` and `BEGIN`. The lock is held while a transaction
    is open, and nobody else releases it. -/
def beginTransaction : Decoder cfg Unit := do
  match (← get).txn with
  | some _ => Proc.stop .unfinished
  | none   =>
      let fails ← answered Env.dbFails
      if fails then fail .database
      else modify (fun w => { w with txn := some w.db })

/-- Roll back and release; a rollback that fails is passed on after the release. -/
def endTransaction : Decoder cfg Unit := do
  match (← get).txn with
  | none   => return ()
  | some _ =>
      let fails ← answered Env.dbFails
      modify (fun w => { w with txn := none })
      if fails then fail .database
      else return ()

/-- Commit, and answer whether it did; a failed commit is rolled back. -/
def commitTransaction : Decoder cfg Bool := do
  match (← get).txn with
  | none   => return false
  | some t =>
      let fails ← answered Env.dbFails
      if fails then do
        modify (fun w => { w with txn := none })
        return false
      else do
        modify (fun w => { w with db := t, txn := none })
        return true

/-- A write on the loop's connection: to the open transaction, else committed
    at once. -/
def World.write {weight : String → String} (f : Tables weight → Tables weight)
    (w : World weight) : World weight :=
  match w.txn with
  | none   => { w with db := f w.db }
  | some t => { w with txn := some (f t) }

theorem World.write_of_none {weight : String → String} {f : Tables weight → Tables weight}
    {w : World weight} (h : w.txn = none) : w.write f = { w with db := f w.db } := by
  unfold World.write
  split
  next h' => rfl
  next t h' => rw [h] at h'; cases h'

theorem World.write_of_some {weight : String → String} {f : Tables weight → Tables weight}
    {w : World weight} {t : Tables weight} (h : w.txn = some t) :
    w.write f = { w with txn := some (f t) } := by
  unfold World.write
  split
  next h' => rw [h] at h'; cases h'
  next t' h' => rw [h] at h'; cases h'; rfl

/-- `insertEvent`: false where the row could not be written, and then the open
    transaction has been rolled back. -/
def insertEvent (e : Event) : Decoder cfg Bool := do
  let fails ← answered Env.dbFails
  if fails then do
    endTransaction
    return false
  else do
    modify (World.write (Tables.insertEvent · e))
    return true

/-- `connector.getBlockHash`: throws on a failed call and on a malformed answer. -/
def getBlockHash (height : Int) : Decoder cfg Hash := do
  let answer := Hash.ofAnswer (← answered (fun env t => env.getblockhash t height))
  observe (.hashAnswer height answer)
  match answer with
  | some hash => return hash
  | none      => fail .rpc

/-- `connector.getBlockHeader` in its verbose form, with the errors as answers. -/
def getBlockHeader (hash : Option Hash) : Decoder cfg HeaderAnswer := do
  let answer ← answered (fun env t => env.getblockheader t hash)
  observe (.headerAnswer hash answer)
  return answer

def getBlockchainInfo : Decoder cfg InfoAnswer := do
  let answer ← answered Env.getblockchaininfo
  observe (.infoAnswer answer)
  return answer

/-- `Date.now()`. -/
def dateNow : Decoder cfg Nat := fun env w => (.ok (env.now w.tick), w)

end Calls

/-! ## Section 3: What an await leaves alone -/

section Frame

variable {weight : String → String} (env : Env) (w : World weight)

/-- Each kind of probe event, and whether one is in flight or due. -/
theorem probes_cases {P : World weight → Prop} (probe : Probe) (now : Nat) (hnone : P w)
    (hfailed : P w.failProbe)
    (hissued : P { w with inFlight := some (w.readMarker now) })
    (hflight : ∀ r, w.inFlight = some r → P (w.adoptReading r))
    (hreads : P (w.adoptReading (w.readMarker now))) : P (w.probes probe now) := by
  unfold World.probes
  split
  · exact hnone
  · exact hfailed
  · split
    · exact hfailed
    · exact hnone
  · exact hnone
  · split
    · exact hissued
    · exact hnone
  next r hr => exact hflight r hr
  · split
    · exact hreads
    · exact hnone

@[simp] theorem tock_db : (w.tock env).db = w.db :=
  probes_cases w (P := fun w' => w'.db = w.db) _ _ rfl rfl rfl (fun _ _ => rfl) rfl

@[simp] theorem tock_txn : (w.tock env).txn = w.txn :=
  probes_cases w (P := fun w' => w'.txn = w.txn) _ _ rfl rfl rfl (fun _ _ => rfl) rfl

@[simp] theorem tock_loop : (w.tock env).loop = w.loop :=
  probes_cases w (P := fun w' => w'.loop = w.loop) _ _ rfl rfl rfl (fun _ _ => rfl) rfl

@[simp] theorem tock_log : (w.tock env).log = w.log :=
  probes_cases w (P := fun w' => w'.log = w.log) _ _ rfl rfl rfl (fun _ _ => rfl) rfl

@[simp] theorem tock_tick : (w.tock env).tick = w.tick + 1 := rfl

@[simp] theorem tock_view : (w.tock env).view = w.view := by
  simp [World.view]

/-- A field of the decoder object that no probe writes. -/
theorem tock_mem {β : Type} (f : Memory → β)
    (hfailed : ∀ mem : Memory, f { mem with reorgHaltProbeFailed := true } = f mem)
    (hadopt : ∀ (mem : Memory) now marker, f (mem.adoptMarker now marker) = f mem) :
    f (w.tock env).mem = f w.mem :=
  probes_cases w (P := fun w' => f w'.mem = f w.mem) _ _ rfl (hfailed _) rfl
    (fun _ _ => hadopt _ _ _) (hadopt _ _ _)

@[simp] theorem tock_forkProofCache :
    (w.tock env).mem.forkProofCache = w.mem.forkProofCache :=
  tock_mem env w Memory.forkProofCache (fun _ => rfl)
    (fun _ _ _ => by unfold Memory.adoptMarker; split <;> rfl)

end Frame

/-! ## Section 4: The halt fields -/

namespace Tables

theorem halted_cases {es : List Event} (h : (readHaltState es).halted = true) :
    (∃ r, Event.reorgHalt r ∈ es) ∨ Event.reorgHaltCleared none ∈ es := by
  induction es with
  | nil => cases h
  | cons e es ih =>
    cases e with
    | parseError time blockIndex txPosition txHash error =>
      rcases ih h with ⟨r, hr⟩ | hr
      · exact .inl ⟨r, List.mem_cons_of_mem _ hr⟩
      · exact .inr (List.mem_cons_of_mem _ hr)
    | reorg deleted =>
      rcases ih h with ⟨r, hr⟩ | hr
      · exact .inl ⟨r, List.mem_cons_of_mem _ hr⟩
      · exact .inr (List.mem_cons_of_mem _ hr)
    | reorgHalt reason => exact .inl ⟨reason, List.mem_cons_self⟩
    | reorgHaltCleared audit =>
      cases audit with
      | none   => exact .inr List.mem_cons_self
      | some a => cases h

end Tables

/-- The halt fields say no more than the `events` table. -/
structure HaltSound {weight : String → String} (w : World weight) : Prop where
  /-- a marker the process calls durable has been read -/
  persisted : w.mem.reorgHaltMarkerPersisted = some true → w.haltConfirmed = true
  /-- a marker that has been read is a row -/
  confirmed : w.haltConfirmed = true → ∃ r, Event.reorgHalt r ∈ w.db.events
  /-- a halt the open transaction shows is committed -/
  view : ∀ r, Event.reorgHalt r ∈ w.view.events → Event.reorgHalt r ∈ w.db.events
  /-- a halt that a probe has read is a row -/
  reading : ∀ r, w.inFlight = some r → r.marker.halted = true →
    ∃ reason, Event.reorgHalt reason ∈ w.db.events
  /-- every clear row has the audited shape -/
  audited : Event.reorgHaltCleared none ∉ w.view.events ∧
    Event.reorgHaltCleared none ∉ w.db.events

namespace HaltSound

variable {weight : String → String} {w : World weight}

/-- A halted reading names a committed row. -/
theorem row_of_halted (h : HaltSound w) (hread : w.view.isReorgHalted = true) :
    ∃ r, Event.reorgHalt r ∈ w.db.events := by
  rcases Tables.halted_cases hread with ⟨r, hr⟩ | hr
  · exact ⟨r, h.view r hr⟩
  · exact absurd hr h.audited.1

theorem adoptReading (h : HaltSound w) {r : Reading}
    (hr : r.marker.halted = true → ∃ reason, Event.reorgHalt reason ∈ w.db.events) :
    HaltSound (w.adoptReading r) where
  persisted := by
    intro hp
    show (w.haltConfirmed || r.marker.halted) = true
    cases hread : r.marker.halted with
    | true => rw [Bool.or_true]
    | false =>
      have hp' : (w.mem.adoptMarker r.issuedAt r.marker).reorgHaltMarkerPersisted = some true := hp
      have hold : w.mem.reorgHaltMarkerPersisted = some true := by
        unfold Memory.adoptMarker at hp'
        split at hp'
        · exact hp'
        · simpa [hread] using hp'
      rw [h.persisted hold, Bool.true_or]
  confirmed := by
    intro hc
    rcases Bool.or_eq_true_iff.mp hc with hc | hread
    · exact h.confirmed hc
    · exact hr hread
  view := h.view
  reading := nofun
  audited := h.audited

theorem tock (h : HaltSound w) (env : Env) : HaltSound (w.tock env) := by
  have hprobes : HaltSound (w.probes (env.probe w.tick) (env.now w.tick)) := by
    apply probes_cases w
    · exact h
    · exact ⟨h.persisted, h.confirmed, h.view, nofun, h.audited⟩
    · refine ⟨h.persisted, h.confirmed, h.view, ?_, h.audited⟩
      intro r hr hread
      cases hr
      exact h.row_of_halted hread
    · exact fun r hr => h.adoptReading (h.reading r hr)
    · exact h.adoptReading h.row_of_halted
  exact ⟨hprobes.persisted, hprobes.confirmed, hprobes.view, hprobes.reading, hprobes.audited⟩

end HaltSound

theorem tock_haltConfirmed {weight : String → String} {w : World weight} (env : Env)
    (h : w.haltConfirmed = true) : (w.tock env).haltConfirmed = true := by
  have hor : ∀ b, (w.haltConfirmed || b) = true := fun b => by rw [h, Bool.true_or]
  exact probes_cases w (P := fun w' => w'.haltConfirmed = true) _ _ h h h (fun _ _ => hor _) (hor _)

/-! ## Section 5: Rules for the calls -/

section Rules

variable {cfg : Config} {α : Type} {env : Env} {w : World cfg.weight}

theorem wp_answered {f : Env → Nat → α} {Q : Except (Stop Failure) α → World cfg.weight → Prop}
    (hcrash : Q (.error .crashed) w) (hok : Q (.ok (f env w.tick)) (w.tock env)) :
    (answered f : Decoder cfg α).wp env w Q := by
  unfold answered Proc.wp
  by_cases h : env.crashes w.tick = true
  · simpa [h] using hcrash
  · simpa [h] using hok

theorem wp_sleep {Q : Except (Stop Failure) Unit → World cfg.weight → Prop}
    (hcrash : Q (.error .crashed) w) (hok : Q (.ok ()) (w.tock env)) :
    (sleep : Decoder cfg Unit).wp env w Q := by
  unfold sleep await Proc.wp
  by_cases h : env.crashes w.tick = true
  · simpa [h] using hcrash
  · simpa [h] using hok

theorem wp_pauseBefore {n : Nat} {Q : Except (Stop Failure) Unit → World cfg.weight → Prop}
    (hcrash : Q (.error .crashed) w) (hlast : Q (.ok ()) w) (hok : Q (.ok ()) (w.tock env)) :
    (pauseBefore n : Decoder cfg Unit).wp env w Q := by
  unfold pauseBefore
  by_cases hn : n = 0
  · rw [if_pos hn]
    exact hlast
  · rw [if_neg hn]
    exact wp_sleep hcrash hok

@[simp] theorem wp_observe {o : Observed cfg.weight}
    {Q : Except (Stop Failure) Unit → World cfg.weight → Prop} :
    (observe o : Decoder cfg Unit).wp env w Q ↔ Q (.ok ()) { w with log := o :: w.log } := Iff.rfl

@[simp] theorem wp_fail {message : Message} {Q : Except (Stop Failure) α → World cfg.weight → Prop} :
    (fail message : Decoder cfg α).wp env w Q ↔ Q (.error (.thrown { message })) w := Iff.rfl

@[simp] theorem wp_dateNow {Q : Except (Stop Failure) Nat → World cfg.weight → Prop} :
    (dateNow : Decoder cfg Nat).wp env w Q ↔ Q (.ok (env.now w.tick)) w := Iff.rfl

theorem wp_query {f : Tables cfg.weight → α}
    {Q : Except (Stop Failure) α → World cfg.weight → Prop}
    (hcrash : Q (.error .crashed) w)
    (hfails : Q (.error (.thrown { message := .database })) (w.tock env))
    (hok : Q (.ok (f w.view)) (w.tock env)) :
    (query f : Decoder cfg α).wp env w Q := by
  unfold query
  refine Proc.wp_bind.mpr (wp_answered hcrash ?_)
  rw [Proc.continuesWith_ok]
  by_cases h : env.dbFails w.tick = true
  · rw [if_pos h]
    exact hfails
  · rw [if_neg h, ← tock_view env w] at *
    exact hok

/-- A query whose failure the caller answers itself. -/
theorem wp_tryQuery {f : Tables cfg.weight → α}
    {Q : Except (Stop Failure) (Option α) → World cfg.weight → Prop}
    (hcrash : Q (.error .crashed) w) (hfails : Q (.ok none) (w.tock env))
    (hok : Q (.ok (some (f w.view))) (w.tock env)) :
    (tryCatch (some <$> query f) (fun _ => return none) : Decoder cfg (Option α)).wp env w Q := by
  refine Proc.wp_tryCatch.mpr (Proc.wp_bind.mpr (wp_query ?_ ?_ ?_))
  · exact hcrash
  · exact hfails
  · exact hok

theorem wp_beginTransaction {Q : Except (Stop Failure) Unit → World cfg.weight → Prop}
    (htxn : w.txn = none)
    (hcrash : Q (.error .crashed) w)
    (hfails : Q (.error (.thrown { message := .database })) (w.tock env))
    (hok : Q (.ok ()) { w.tock env with txn := some (w.tock env).db }) :
    (beginTransaction : Decoder cfg Unit).wp env w Q := by
  unfold beginTransaction
  rw [Proc.wp_bind, Proc.wp_get, Proc.continuesWith_ok, htxn]
  refine Proc.wp_bind.mpr (wp_answered hcrash ?_)
  rw [Proc.continuesWith_ok]
  by_cases h : env.dbFails w.tick = true
  · rw [if_pos h]
    exact hfails
  · rw [if_neg h, Proc.wp_modify]
    exact hok

theorem wp_endTransaction {Q : Except (Stop Failure) Unit → World cfg.weight → Prop}
    (hcrash : Q (.error .crashed) w)
    (hnone : w.txn = none → Q (.ok ()) w)
    (hfails : Q (.error (.thrown { message := .database })) { w.tock env with txn := none })
    (hok : Q (.ok ()) { w.tock env with txn := none }) :
    (endTransaction : Decoder cfg Unit).wp env w Q := by
  unfold endTransaction
  rw [Proc.wp_bind, Proc.wp_get, Proc.continuesWith_ok]
  cases htxn : w.txn with
  | none => exact hnone htxn
  | some t =>
    refine Proc.wp_bind.mpr (wp_answered hcrash ?_)
    rw [Proc.continuesWith_ok, Proc.wp_bind, Proc.wp_modify, Proc.continuesWith_ok]
    by_cases h : env.dbFails w.tick = true
    · rw [if_pos h]
      exact hfails
    · rw [if_neg h]
      exact hok

theorem wp_commitTransaction {Q : Except (Stop Failure) Bool → World cfg.weight → Prop}
    {t : Tables cfg.weight} (htxn : w.txn = some t)
    (hcrash : Q (.error .crashed) w)
    (hfails : Q (.ok false) { w.tock env with txn := none })
    (hok : Q (.ok true) { w.tock env with db := t, txn := none }) :
    (commitTransaction : Decoder cfg Bool).wp env w Q := by
  unfold commitTransaction
  rw [Proc.wp_bind, Proc.wp_get, Proc.continuesWith_ok, htxn]
  refine Proc.wp_bind.mpr (wp_answered hcrash ?_)
  rw [Proc.continuesWith_ok]
  by_cases h : env.dbFails w.tick = true
  · rw [if_pos h, Proc.wp_bind, Proc.wp_modify]
    exact hfails
  · rw [if_neg h, Proc.wp_bind, Proc.wp_modify]
    exact hok

/-- Outside a transaction a failed `insertEvent` changes nothing. -/
theorem wp_insertEvent {e : Event} {Q : Except (Stop Failure) Bool → World cfg.weight → Prop}
    (htxn : w.txn = none)
    (hcrash : Q (.error .crashed) w)
    (hfails : Q (.ok false) (w.tock env))
    (hok : Q (.ok true) { w.tock env with db := (w.tock env).db.insertEvent e }) :
    (insertEvent e : Decoder cfg Bool).wp env w Q := by
  unfold insertEvent
  refine Proc.wp_bind.mpr (wp_answered hcrash ?_)
  rw [Proc.continuesWith_ok]
  have htock : (w.tock env).txn = none := (tock_txn env w).trans htxn
  by_cases h : env.dbFails w.tick = true
  · rw [if_pos h]
    refine Proc.wp_bind.mpr ?_
    unfold endTransaction
    rw [Proc.wp_bind, Proc.wp_get, Proc.continuesWith_ok, htock]
    exact hfails
  · rw [if_neg h, Proc.wp_bind, Proc.wp_modify, Proc.continuesWith_ok, Proc.wp_pure]
    rw [World.write_of_none htock]
    exact hok

theorem wp_getBlockHash {height : Int} {Q : Except (Stop Failure) Hash → World cfg.weight → Prop}
    (hcrash : Q (.error .crashed) w)
    (hfails : Q (.error (.thrown { message := .rpc }))
      { w.tock env with log := .hashAnswer height none :: (w.tock env).log })
    (hok : ∀ hash, Hash.ofAnswer (env.getblockhash w.tick height) = some hash →
      Q (.ok hash) { w.tock env with log := .hashAnswer height (some hash) :: (w.tock env).log }) :
    (getBlockHash height : Decoder cfg Hash).wp env w Q := by
  unfold getBlockHash
  refine Proc.wp_bind.mpr (wp_answered hcrash ?_)
  rw [Proc.continuesWith_ok, Proc.wp_bind, wp_observe, Proc.continuesWith_ok]
  cases h : Hash.ofAnswer (env.getblockhash w.tick height) with
  | none      => exact hfails
  | some hash => exact hok hash h

theorem wp_getBlockHeader {hash : Option Hash}
    {Q : Except (Stop Failure) HeaderAnswer → World cfg.weight → Prop}
    (hcrash : Q (.error .crashed) w)
    (hok : Q (.ok (env.getblockheader w.tick hash))
      { w.tock env with log := .headerAnswer hash (env.getblockheader w.tick hash) :: (w.tock env).log }) :
    (getBlockHeader hash : Decoder cfg HeaderAnswer).wp env w Q := by
  unfold getBlockHeader
  refine Proc.wp_bind.mpr (wp_answered hcrash ?_)
  rw [Proc.continuesWith_ok, Proc.wp_bind, wp_observe, Proc.continuesWith_ok]
  exact hok

theorem wp_getBlockchainInfo {Q : Except (Stop Failure) InfoAnswer → World cfg.weight → Prop}
    (hcrash : Q (.error .crashed) w)
    (hok : Q (.ok (env.getblockchaininfo w.tick))
      { w.tock env with log := .infoAnswer (env.getblockchaininfo w.tick) :: (w.tock env).log }) :
    (getBlockchainInfo : Decoder cfg InfoAnswer).wp env w Q := by
  unfold getBlockchainInfo
  refine Proc.wp_bind.mpr (wp_answered hcrash ?_)
  rw [Proc.continuesWith_ok, Proc.wp_bind, wp_observe, Proc.continuesWith_ok]
  exact hok

end Rules

end XChainDecoder
