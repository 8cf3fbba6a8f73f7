import XChainDecoder.Loop.Iterate
import XChainDecoder.Ingest.Forward

/-! # The life of a decoder

    A database and the processes that run on it one after the other: each boots,
    takes turns of the parse loop, and ends where it is killed or throws. `Lives`
    has the states between two turns; a state that a crash exposes inside a turn is
    the one the next process boots on, so it is among them too.

    **Main theorems.** `Lives.stored_chain`: the stored blocks are an interval from
    the start height, each linked to the one below. `Lives.cursor_agrees`: in a life
    without a disturbed turn the cursor is the stored tip wherever the loop is not
    parked. -/

namespace XChainDecoder

open Proc Tables

variable {cfg : Config} {rules : Rules} {w w' : World cfg.weight}

/-! ## Section 1: Lives -/

inductive Phase where
  /-- between two turns -/
  | looping
  /-- no process runs -/
  | stopped
deriving DecidableEq, Repr

/-- The operator's `clear-reorg-halt` commits its row next to what the loop writes. -/
def World.noteCleared {weight : String → String} (w : World weight) (audit : String) :
    World weight :=
  { w with
    db  := w.db.insertEvent (.reorgHaltCleared (some audit))
    txn := w.txn.map (Tables.insertEvent · (.reorgHaltCleared (some audit))) }

/-- The states of a life whose turns satisfy `C`. -/
inductive Lives (cfg : Config) (rules : Rules)
    (C : World cfg.weight → Turn → World cfg.weight → Prop) : Phase → World cfg.weight → Prop where
  | created : Lives cfg rules C .stopped (World.onDatabase (Tables.fresh cfg.weight))
  /-- a restart, wherever the last process was -/
  | boots {phase : Phase} {w w' : World cfg.weight} (env : Env) (h : Lives cfg rules C phase w)
      (hboot : (bootDecoder : Decoder cfg Unit) env w.reboot = (.ok (), w')) :
      Lives cfg rules C .looping w'
  | bootFails {phase : Phase} {w w' : World cfg.weight} (env : Env) {e : Stop Failure}
      (h : Lives cfg rules C phase w)
      (hboot : (bootDecoder : Decoder cfg Unit) env w.reboot = (.error e, w')) :
      Lives cfg rules C .stopped w'
  | turns {w w' : World cfg.weight} (env : Env) (rounds : Nat) {turn : Turn}
      (h : Lives cfg rules C .looping w)
      (hturn : (iterate rules rounds : Decoder cfg Turn) env w = (.ok turn, w'))
      (hmeets : C w turn w') : Lives cfg rules C .looping w'
  | ends {w w' : World cfg.weight} (env : Env) (rounds : Nat) {e : Stop Failure}
      (h : Lives cfg rules C .looping w)
      (hturn : (iterate rules rounds : Decoder cfg Turn) env w = (.error e, w')) :
      Lives cfg rules C .stopped w'
  | cleared {phase : Phase} {w : World cfg.weight} (audit : String)
      (h : Lives cfg rules C phase w) : Lives cfg rules C phase (w.noteCleared audit)

/-! ## Section 2: Booting -/

theorem chained_insertEvent {weight : String → String} {start : Int} {t : Tables weight}
    (h : Chained start t) (e : Event) : Chained start (t.insertEvent e) :=
  h.of_prefix h.wf rfl List.prefix_rfl

theorem Intact.noteCleared (h : Intact cfg w) (audit : String) : Intact cfg (w.noteCleared audit) where
  db  := chained_insertEvent h.db _
  txn := by
    intro t ht
    obtain ⟨t₀, ht₀, rfl⟩ := Option.map_eq_some_iff.mp ht
    exact chained_insertEvent (h.txn t₀ ht₀) _

theorem Agrees.noteCleared (h : Agrees w) (audit : String) : Agrees (w.noteCleared audit) where
  cursor  := by
    have hview : (w.noteCleared audit).view.getLastBlockIndex = w.view.getLastBlockIndex := by
      unfold World.view World.noteCleared
      cases w.txn <;> rfl
    rw [hview]
    exact h.cursor
  counted := h.counted
  batch   := by
    have htxn : (w.noteCleared audit).txn ≠ none ↔ w.txn ≠ none := by
      unfold World.noteCleared
      cases w.txn <;> simp
    rw [htxn]
    exact h.batch

theorem Parking.aligned (h : Parking w w') (ha : Aligned w) : Aligned w' := by
  obtain ⟨hidle, hagrees⟩ := ha
  have hview : w'.view = w.view := by
    unfold World.view
    rw [h.txn, h.db]
  refine ⟨h.txn.trans hidle, ?_, ?_, ?_⟩
  · rw [h.cursor, hview]
    exact hagrees.cursor
  · rw [h.batch]
    exact hagrees.counted
  · rw [h.batch, h.txn]
    exact hagrees.batch

/-- A process that has booted looks at the stored tip, and may be parked. -/
theorem maintains_bootDecoder :
    Maintains (images cfg) Idle (bootDecoder : Decoder cfg Unit) (fun _ => Aligned) := by
  have hidle : ∀ w w' : World cfg.weight, Still w w' → Idle w → Idle w' := fun _ _ hs h => hs.idle h
  refine maintains_bind (onlyLooks_verifyChainGenesis.maintains hidle) (fun foreign => ?_)
  refine maintains_ite (fun _ => maintains_throw _) (fun _ => ?_)
  refine maintains_bind ((onlyLooks_checkReorgHalt true).maintains hidle) (fun _ => ?_)
  refine maintains_bind (R := fun _ => Aligned) ?_ (fun _ => ?_)
  · -- `readLoopCursors`
    refine maintains_bind (R := fun last w => Idle w ∧ last = w.db.getLastBlockIndex) ?_ (fun last => ?_)
    · refine (maintains_query (fun _ _ h => idle_tock h) _).weaken (fun _ _ h => h) ?_
      rintro last w ⟨h, rfl⟩
      exact ⟨h, by rw [h.view]⟩
    refine maintains_bind ((onlyLooks_query _).maintains (P := fun w => Idle w ∧
      last = w.db.getLastBlockIndex) ?_) (fun lastTx => maintains_modify ?_)
    · intro w w' hs h
      refine ⟨hs.idle h.1, ?_⟩
      rw [hs.db]
      exact h.2
    · rintro w hI ⟨h, rfl⟩
      refine ⟨hI.congr rfl (.inl rfl), Aligned.of_cursor h ?_ rfl⟩
      show max w.db.getLastBlockIndex _ = max w.view.getLastBlockIndex _
      rw [h.view]
  have haligned : ∀ w w' : World cfg.weight, Still w w' → Aligned w → Aligned w' :=
    fun _ _ hs h => hs.aligned h
  refine maintains_bind ((onlyLooks_updateMem (by intro _; rfl)).maintains haligned) (fun _ => ?_)
  refine maintains_bind (R := fun _ => Aligned) ?_ (fun _ => maintains_pure (fun _ h => h))
  intro env w hI hw
  -- the boot may end in a park; the cursor it derived stands either way
  have hparks : Maintains (images cfg) (ParkedAs w w.mem.reorgHaltParked)
      (parkOnRolledBackHalt : Decoder cfg Bool) _ := maintains_parkOnRolledBackHalt _
  refine wp_mono (hparks env w hI ⟨⟨rfl, rfl, rfl, rfl, rfl⟩, rfl⟩) ?_
  rintro r w' ⟨hends, hparking⟩
  exact ⟨hends, fun b hb => (hparking b hb).1.aligned hw⟩

/-! ## Section 3: The stored chain -/

/-- What holds of a life between two turns. -/
structure Sound (phase : Phase) (w : World cfg.weight) : Prop where
  stored : Chained cfg.startBlockIndex w.db
  intact : phase = .looping → Intact cfg w
  low    : phase = .looping → CursorLow cfg w

/-- What a call that ends leaves. -/
theorem run_of_maintains {α : Type} {P : World cfg.weight → Prop} {Q : α → World cfg.weight → Prop}
    {m : Decoder cfg α} (h : Maintains (images cfg) P m Q) {env : Env} (hI : Intact cfg w) (hP : P w)
    {r : Except (Stop Failure) α} (hrun : m env w = (r, w')) :
    Chained cfg.startBlockIndex w'.db ∧ ∀ a, r = .ok a → Intact cfg w' ∧ Q a w' := by
  have hends := h env w hI hP
  unfold Proc.wp at hends
  rw [hrun] at hends
  obtain ⟨hkept, hQ⟩ := hends
  match r with
  | .ok a               => exact ⟨hkept.db, fun b hb => ⟨hkept, hQ b hb⟩⟩
  | .error (.thrown e)  => exact ⟨hkept.db, nofun⟩
  | .error .unfinished  => exact ⟨hkept.db, nofun⟩
  | .error .crashed     => exact ⟨hkept, nofun⟩

theorem run_bootDecoder (h : Chained cfg.startBlockIndex w.db) {env : Env}
    {r : Except (Stop Failure) Unit} (hboot : (bootDecoder : Decoder cfg Unit) env w.reboot = (r, w')) :
    Chained cfg.startBlockIndex w'.db ∧ ∀ a, r = .ok a → Intact cfg w' ∧ Aligned w' := by
  have hI : Intact cfg w.reboot := ⟨h, nofun⟩
  have hidle : Idle w.reboot := rfl
  exact run_of_maintains maintains_bootDecoder hI hidle hboot

theorem run_iterate (hI : Intact cfg w) (hlow : CursorLow cfg w) {env : Env} {rounds : Nat}
    {r : Except (Stop Failure) Turn}
    (hturn : (iterate rules rounds : Decoder cfg Turn) env w = (r, w')) :
    Chained cfg.startBlockIndex w'.db ∧ ∀ a, r = .ok a → Intact cfg w' ∧ Turned w a w' :=
  run_of_maintains (maintains_iterate_turn hlow rounds) hI (Still.refl w) hturn

variable {C : World cfg.weight → Turn → World cfg.weight → Prop} {phase : Phase}

theorem Lives.sound (h : Lives cfg rules C phase w) : Sound phase w := by
  induction h with
  | created => exact ⟨chained_fresh cfg.start_nonneg, nofun, nofun⟩
  | boots env h hboot ih =>
    obtain ⟨hstored, hdone⟩ := run_bootDecoder ih.stored hboot
    obtain ⟨hI, haligned⟩ := hdone () rfl
    exact ⟨hstored, fun _ => hI, fun _ => haligned.2.low⟩
  | bootFails env h hboot ih =>
    exact ⟨(run_bootDecoder ih.stored hboot).1, nofun, nofun⟩
  | turns env rounds h hturn hmeets ih =>
    obtain ⟨hstored, hdone⟩ := run_iterate (ih.intact rfl) (ih.low rfl) hturn
    obtain ⟨hI, hturned⟩ := hdone _ rfl
    exact ⟨hstored, fun _ => hI, fun _ => hturned.low⟩
  | ends env rounds h hturn ih =>
    exact ⟨(run_iterate (ih.intact rfl) (ih.low rfl) hturn).1, nofun, nofun⟩
  | cleared audit h ih =>
    exact ⟨chained_insertEvent ih.stored _, fun hp => (ih.intact hp).noteCleared audit, ih.low⟩

/-- **The stored chain** is contiguous from the start height and hash-linked, in every
    state of every life. -/
theorem Lives.stored_chain (h : Lives cfg rules C phase w) :
    (∃ tip, ∀ i, i ∈ w.db.heights ↔ cfg.startBlockIndex ≤ i ∧ i ≤ tip) ∧
    ∀ i block, cfg.startBlockIndex < i → w.db.getBlockByIndex i = some block →
      ∃ hash, block.previousBlockHash = some hash ∧ w.db.hashAt (i - 1) = some hash := by
  have hstored := h.sound.stored
  exact ⟨⟨_, hstored.interval⟩, fun i block hlt hblock => hstored.linked i block hlt hblock⟩

/-! ## Section 4: The cursor -/

/-- A turn is disturbed when a proof wait follows a delete, or when it waits or is held
    while a batch is open. -/
def Calm (w : World cfg.weight) (turn : Turn) (w' : World cfg.weight) : Prop :=
  (turn = .waited → w'.deletes = w.deletes ∧ w.txn = none) ∧
  (turn = .held ∨ turn = .resumed → w.mem.reorgHaltParked = false → w.txn = none)

/-- What an undisturbed life keeps between two turns. -/
structure Steered (w : World cfg.weight) : Prop where
  parked : w.mem.reorgHaltParked = true → Idle w
  free   : w.mem.reorgHaltParked = false → Agrees w

theorem Aligned.steered (h : Aligned w) : Steered w := ⟨fun _ => h.1, fun _ => h.2⟩

/-- **One turn** that is not disturbed. -/
theorem Turned.steered {turn : Turn} (h : Turned w turn w') (hs : Steered w)
    (hcalm : Calm w turn w') : Steered w' := by
  have hidle : turn = .held ∨ turn = .resumed → Idle w := by
    intro hturn
    cases hparked : w.mem.reorgHaltParked with
    | true  => exact hs.parked hparked
    | false => exact hcalm.2 hturn hparked
  by_cases hheld : turn = .held
  · obtain ⟨hparked, hstays⟩ := h.held hheld
    refine ⟨fun _ => hstays (hidle (.inl hheld)), fun hfree => ?_⟩
    rw [hparked] at hfree
    cases hfree
  by_cases hresumed : turn = .resumed
  · exact (h.resumed hresumed (hidle (.inr hresumed))).steered
  -- the loop was not parked
  obtain ⟨hfree, hended⟩ := h.parsed hheld hresumed
  have hagrees := hs.free hfree
  by_cases hwaited : turn = .waited
  · obtain ⟨hrolled, hidle'⟩ := hended.waited hwaited
    obtain ⟨hsame, hnone⟩ := hcalm.1 hwaited
    exact ⟨fun _ => hidle', fun _ => hrolled.agrees hidle' hnone hsame hagrees⟩
  by_cases hparked : turn = .parked
  · obtain ⟨hpark, hidle'⟩ := hended.parked hparked
    refine ⟨fun _ => hidle', fun hfree' => ?_⟩
    rw [hpark] at hfree'
    cases hfree'
  obtain ⟨hagrees', hpark⟩ := hended.other hwaited hparked hagrees
  refine ⟨fun hpark' => ?_, fun _ => hagrees'⟩
  rcases hpark with hidle' | hsame
  · exact hidle'
  · rw [hsame, hfree] at hpark'
    cases hpark'

theorem Lives.steered (h : Lives cfg rules Calm .looping w) : Steered w := by
  generalize hphase : Phase.looping = phase at h
  induction h with
  | created => cases hphase
  | boots env h hboot ih =>
    have hstored := h.sound.stored
    exact ((run_bootDecoder hstored hboot).2 () rfl).2.steered
  | bootFails env h hboot ih => cases hphase
  | turns env rounds h hturn hmeets ih =>
    have hsound := h.sound
    have hturned := (run_iterate (hsound.intact rfl) (hsound.low rfl) hturn).2 _ rfl
    exact hturned.2.steered (ih rfl) hmeets
  | ends env rounds h hturn ih => cases hphase
  | cleared audit h ih =>
    have hs := ih hphase
    refine ⟨fun hp => ?_, fun hp => (hs.free hp).noteCleared audit⟩
    have hnone : _ = none := hs.parked hp
    show Option.map _ _ = none
    rw [hnone]
    rfl

/-- **Cursor and database agree** in a life without a disturbed turn, so the block
    under the cursor is there to be compared. -/
theorem Lives.cursor_agrees (h : Lives cfg rules Calm .looping w)
    (hfree : w.mem.reorgHaltParked = false) :
    w.loop.lastProcessedBlockIndex = max w.view.getLastBlockIndex (cfg.startBlockIndex - 1) ∧
      (0 < w.loop.blocksQuantity ↔ w.txn ≠ none) ∧
      (cfg.startBlockIndex ≤ w.loop.lastProcessedBlockIndex →
        w.loop.lastProcessedBlockIndex ∈ w.view.heights) := by
  have hagrees := h.steered.free hfree
  have hview : Chained cfg.startBlockIndex w.view := (h.sound.intact rfl).view
  -- the cursor is the upper end of the stored interval
  have htop : w.loop.lastProcessedBlockIndex ≤ w.view.chainTip cfg.startBlockIndex :=
    le_of_eq hagrees.cursor
  exact ⟨hagrees.cursor, hagrees.batch, fun hstart => (hview.interval _).mpr ⟨hstart, htop⟩⟩

namespace Sample

def hashD : Hash := ⟨"dddddddddddddddddddddddddddddddddddddddddddddddddddddddddddddddd", by decide⟩
def hashE : Hash := ⟨"eeeeeeeeeeeeeeeeeeeeeeeeeeeeeeeeeeeeeeeeeeeeeeeeeeeeeeeeeeeeeeee", by decide⟩

/-- A node on the chain that `hashes` lists, up to `tip`. -/
def nodeOn (hashes : List Hash) (tip : Int) (header : Option Hash → HeaderAnswer) : Env where
  crashes _                 := false
  dbFails _                 := false
  rpcFails _                := false
  probe _                   := .none
  now _                     := 0
  getblockhash _ height     := hashes[height.toNat]?.map Subtype.val
  getblockheader _ hash     := header hash
  getblockchaininfo _       := .info ⟨some tip, some 1, false, none⟩
  getblock _ hash           := .block ⟨(hashes[hashes.idxOf hash - 1]?).getD hash, 1600000000, []⟩

/-- The node holds A and B. -/
def before : Env := nodeOn [hashA, hashB] 1 (fun _ => .failed)

/-- It has reorged to C, D and E: it proves that B was left, and does not know A. -/
def after : Env := nodeOn [hashC, hashD, hashE] 2
  (fun hash => if hash = some hashB then .header (some (-1)) else .notFound)

def booted : World id :=
  afterCall ((bootDecoder : Decoder config Unit) before (World.onDatabase (Tables.fresh id)).reboot)

def turn (env : Env) (w : World id) : Except (Stop Failure) Turn × World id :=
  (iterate (Sample.rules false) 9 : Decoder config Turn) env w

def upToA : World id := afterCall (turn before booted)

def upToB : World id := afterCall (turn before upToA)

/-- A turn on the reorged node, which deletes B and waits for a proof against A. -/
def waiting : World id := afterCall (turn after upToB)

/-- One more, and so on: the block under the cursor is the one it has deleted. -/
def retrying : World id := afterCall (turn after waiting)

variable {C : World config.weight → Turn → World config.weight → Prop}

theorem eq_afterCall {α : Type} {p : Except (Stop Failure) α × World id} {a : α}
    (h : p.1 = .ok a) : p = (.ok a, afterCall p) := by
  obtain ⟨r, w⟩ := p
  cases h
  rfl

/-- How these turns end, and what the last two leave. -/
theorem turns_end :
    (turn before booted).1 = .ok .turned ∧ (turn before upToA).1 = .ok .turned ∧
    (turn after upToB).1 = .ok .waited ∧ (turn after waiting).1 = .ok .turned ∧
    upToB.mem.reorgHaltParked = false ∧
    (waiting.mem.reorgHaltParked = false ∧ waiting.loop.lastProcessedBlockIndex = 1 ∧
      waiting.view.getLastBlockIndex = 0) ∧
    (retrying.mem.reorgHaltParked = false ∧ retrying.loop.lastProcessedBlockIndex = 1 ∧
      retrying.view.getLastBlockIndex = 0) := by
  decide +kernel

theorem lives_upToB (hmeets : ∀ w turn w', @Calm config w turn w' → C w turn w') :
    Lives config (Sample.rules false) C .looping upToB := by
  have hbooted : Lives config (Sample.rules false) C .looping booted :=
    .boots before .created (eq_afterCall (by decide +kernel))
  have hturnA : turn before booted = (.ok .turned, upToA) := eq_afterCall turns_end.1
  have hturnB : turn before upToA = (.ok .turned, upToB) := eq_afterCall turns_end.2.1
  have hupToA : Lives config (Sample.rules false) C .looping upToA :=
    .turns before 9 hbooted hturnA (hmeets _ _ _ ⟨nofun, by simp⟩)
  exact .turns before 9 hupToA hturnB (hmeets _ _ _ ⟨nofun, by simp⟩)

theorem stored_chain_upToB :
    (∃ tip, ∀ i, i ∈ upToB.db.heights ↔ config.startBlockIndex ≤ i ∧ i ≤ tip) ∧
    ∀ i block, config.startBlockIndex < i → upToB.db.getBlockByIndex i = some block →
      ∃ hash, block.previousBlockHash = some hash ∧ upToB.db.hashAt (i - 1) = some hash :=
  Lives.stored_chain (lives_upToB (C := Calm) (fun _ _ _ h => h))

theorem cursor_agrees_upToB :
    upToB.loop.lastProcessedBlockIndex =
        max upToB.view.getLastBlockIndex (config.startBlockIndex - 1) ∧
      (0 < upToB.loop.blocksQuantity ↔ upToB.txn ≠ none) ∧
      (config.startBlockIndex ≤ upToB.loop.lastProcessedBlockIndex →
        upToB.loop.lastProcessedBlockIndex ∈ upToB.view.heights) := by
  have hlives := lives_upToB (C := Calm) (fun _ _ _ h => h)
  exact Lives.cursor_agrees hlives turns_end.2.2.2.2.1

/-- The wait leaves the cursor on the deleted block, and the next turn keeps it there. -/
theorem waiting_disagrees :
    Lives config (Sample.rules false) (fun _ _ _ => True) .looping waiting ∧
    (waiting.mem.reorgHaltParked = false ∧ waiting.loop.lastProcessedBlockIndex = 1 ∧
      waiting.view.getLastBlockIndex = 0) ∧
    Lives config (Sample.rules false) (fun _ _ _ => True) .looping retrying ∧
    (retrying.mem.reorgHaltParked = false ∧ retrying.loop.lastProcessedBlockIndex = 1 ∧
      retrying.view.getLastBlockIndex = 0) := by
  obtain ⟨-, -, hwaits, hretries, -, hstays, hagain⟩ := turns_end
  have hwaiting : Lives config (Sample.rules false) (fun _ _ _ => True) .looping waiting :=
    .turns after 9 (lives_upToB (fun _ _ _ _ => trivial)) (eq_afterCall hwaits) trivial
  have hretrying : Lives config (Sample.rules false) (fun _ _ _ => True) .looping retrying :=
    .turns after 9 hwaiting (eq_afterCall hretries) trivial
  exact ⟨hwaiting, hstays, hretrying, hagain⟩

end Sample

end XChainDecoder
