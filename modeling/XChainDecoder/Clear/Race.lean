import XChainDecoder.Clear.Command
import XChainDecoder.Ingest.Forward

/-! # Clears and the checks behind them

    A clear row lifts every halt below it. It should lift no halt and no rollback that
    its checks did not see: no REORG_HALT row between the row the checks were pinned to
    and the clear row, and no rolled-back height left above the stored tip.

    The checks are statements of their own, and two windows stay open behind them: from
    the read of the tip to the insert a walk may delete blocks under the very halt the
    command is pinned to, and from the second read of the halt state to the insert
    another operator may clear that halt and the decoder raise a new one. The main
    theorem `covers_of_undisturbed` is that these two are all there is. -/

namespace XChainDecoder

/-! ## Section 1: Rows by id -/

/-- The row of an id. -/
def rowById : List Event → Nat → Option Event
  | [],        _  => none
  | e :: rest, id => if id = rest.length + 1 then some e else rowById rest id

theorem le_length_of_rowById {es : List Event} {id : Nat} {e : Event} (h : rowById es id = some e) :
    id ≤ es.length := by
  induction es with
  | nil => simp [rowById] at h
  | cons e' rest ih =>
    by_cases hid : id = rest.length + 1
    · simp [hid]
    · simp only [rowById, hid, if_false] at h
      have := ih h
      simp only [List.length_cons]
      omega

/-- Rows of other kinds on top leave the rows of a kind alone. -/
theorem rowById_append {p : Event → Prop} (news : List Event) {es : List Event} {id : Nat}
    {e : Event}
    (hnews : ∀ e ∈ news, ¬p e) (he : p e) (h : rowById (news ++ es) id = some e) :
    rowById es id = some e := by
  induction news with
  | nil => exact h
  | cons e' news ih =>
    rw [List.cons_append] at h
    by_cases hid : id = (news ++ es).length + 1
    · simp only [rowById, hid, if_true, Option.some.injEq] at h
      rw [← h] at he
      exact absurd he (hnews e' List.mem_cons_self)
    · simp only [rowById, hid, if_false] at h
      exact ih (fun e he => hnews e (List.mem_cons_of_mem _ he)) h

/-- A row that raises the halt. -/
def Event.IsRaise (e : Event) : Prop := ∃ reason, e = .reorgHalt reason

/-- No halt row is newer than the row that reads as live. -/
theorem raise_le_of_live {es : List Event} {pin : Nat}
    (hhalted : (Tables.readHaltState es).halted = true)
    (hpin : (Tables.readHaltState es).id = some pin) {id : Nat} {e : Event}
    (hrow : rowById es id = some e) (he : e.IsRaise) : id ≤ pin := by
  induction es with
  | nil => simp [rowById] at hrow
  | cons newest rest ih =>
    have hle := le_length_of_rowById hrow
    cases newest with
    | reorgHalt reason =>
      simp only [Tables.readHaltState, Option.some.injEq] at hpin
      simp only [List.length_cons] at hle
      omega
    | reorgHaltCleared audit =>
      cases audit with
      | none =>
        simp only [Tables.readHaltState, Option.some.injEq] at hpin
        simp only [List.length_cons] at hle
        omega
      | some reason => simp [Tables.readHaltState] at hhalted
    | parseError time blockIndex position hash error =>
      refine ih hhalted hpin ?_
      exact rowById_append (p := Event.IsRaise)
        [.parseError time blockIndex position hash error] (by simp [Event.IsRaise]) he hrow
    | reorg deleted =>
      refine ih hhalted hpin ?_
      exact rowById_append (p := Event.IsRaise) [.reorg deleted] (by simp [Event.IsRaise]) he hrow

namespace Tables

variable {weight : String → String} {t t' : Tables weight}

theorem reorgRows_of_append {news : List Event} (h : t'.events = news ++ t.events)
    (hnews : ∀ e ∈ news, e.reorgPayload = none) : t'.reorgRows = t.reorgRows := by
  unfold reorgRows
  rw [h, List.filterMap_append, List.filterMap_eq_nil_iff.mpr hnews, List.nil_append]

theorem reorgHeights_congr (h : t'.reorgRows = t.reorgRows) (limit : Nat) :
    t'.reorgHeights limit = t.reorgHeights limit := by
  unfold reorgHeights
  rw [h]

/-- A delete adds its own height to the scan, and may push the oldest one out. -/
theorem mem_reorgHeights_deleteBlockByIndex {blockIndex h : Int} {hash : Option Hash} {limit : Nat}
    (hmem : h ∈ (t.deleteBlockByIndex blockIndex hash).reorgHeights limit) :
    h = blockIndex ∨ h ∈ t.reorgHeights limit := by
  cases hash with
  | none => exact .inr hmem
  | some hash =>
    have hrows : (t.deleteBlockByIndex blockIndex (some hash)).reorgRows =
        [(blockIndex, hash)] :: t.reorgRows := rfl
    unfold reorgHeights at hmem ⊢
    rw [hrows] at hmem
    cases limit with
    | zero => simp at hmem
    | succ limit =>
      simp only [List.take_succ_cons, List.flatMap_cons, List.map_cons, List.map_nil,
        List.mem_append, List.mem_singleton] at hmem
      refine hmem.imp_right (fun hold => ?_)
      rw [List.mem_flatMap] at hold ⊢
      rcases hold with ⟨row, hrow, hh⟩
      exact ⟨row, List.take_subset_take_left _ (Nat.le_succ limit) hrow, hh⟩

theorem countReorgDeletesAbove_eq_zero {tip : Int} {limit : Nat} :
    t.countReorgDeletesAbove tip limit = 0 ↔ ∀ h ∈ t.reorgHeights limit, h ≤ tip := by
  unfold countReorgDeletesAbove
  rw [List.length_eq_zero_iff, List.dedup_eq_nil, List.filter_eq_nil_iff]
  simp

end Tables

/-! ## Section 2: The stored tip under writes -/

namespace ChainRows

variable {c c' : ChainRows}

theorem neg_one_le_getLastBlockIndex (c : ChainRows) : -1 ≤ c.getLastBlockIndex := by
  unfold getLastBlockIndex
  induction c.blocks.map BlockRow.blockIndex with
  | nil => exact Int.le_refl _
  | cons h hs ih => exact Int.le_trans ih (Int.le_max_right _ _)

theorem getLastBlockIndex_mono (h : ∀ i ∈ c.heights, i ∈ c'.heights) :
    c.getLastBlockIndex ≤ c'.getLastBlockIndex := by
  rcases getLastBlockIndex_cases c with hnone | hstored
  · rw [hnone]
    exact neg_one_le_getLastBlockIndex c'
  · exact le_getLastBlockIndex (h _ hstored)

/-- Only the delete of the tip lowers it. -/
theorem getLastBlockIndex_deleteBlock (c : ChainRows) (blockIndex : Int) :
    c.getLastBlockIndex ≤ (c.deleteBlock blockIndex).getLastBlockIndex ∨
      c.getLastBlockIndex = blockIndex := by
  rcases getLastBlockIndex_cases c with hnone | hstored
  · left
    rw [hnone]
    exact neg_one_le_getLastBlockIndex _
  · by_cases htip : c.getLastBlockIndex = blockIndex
    · exact .inr htip
    · exact .inl (le_getLastBlockIndex (mem_heights_deleteBlock.mpr ⟨hstored, htip⟩))

end ChainRows

/-- A change of the tables that gives a command under way nothing new to cover. -/
structure Tables.Harmless {weight : String → String} (t t' : Tables weight) : Prop where
  tip    : t.getLastBlockIndex ≤ t'.getLastBlockIndex
  marks  : ∀ h ∈ t'.reorgHeights REORG_SCAN_LIMIT, h ∈ t.reorgHeights REORG_SCAN_LIMIT
  raises : ∀ id e, rowById t'.events id = some e → e.IsRaise → rowById t.events id = some e

namespace Tables

variable {weight : String → String} {t t' : Tables weight}

theorem Harmless.of_events (news : List Event) (hheights : ∀ i ∈ t.heights, i ∈ t'.heights)
    (hevents : t'.events = news ++ t.events)
    (hnews : ∀ e ∈ news, e.reorgPayload = none ∧ ¬e.IsRaise) : Harmless t t' where
  tip    := ChainRows.getLastBlockIndex_mono hheights
  marks  := by
    intro h hh
    rwa [reorgHeights_congr (reorgRows_of_append hevents (fun e he => (hnews e he).1))] at hh
  raises := by
    intro id e hrow he
    rw [hevents] at hrow
    exact rowById_append news (fun e he => (hnews e he).2) he hrow

/-- A purge writes no block and no row of the audit table. -/
theorem Harmless.of_blocks {c : ChainRows} (h : c.blocks = t.blocks) :
    Harmless t { t with toChainRows := c } := by
  have hheights : c.heights = t.heights := ChainRows.heights_eq_of_blocks_eq h
  refine Harmless.of_events [] ?_ rfl nofun
  intro i hi
  exact hheights.symm ▸ hi

theorem harmless_insertClear (t : Tables weight) (audit : Option String) :
    Harmless t (t.insertEvent (.reorgHaltCleared audit)) := by
  refine Harmless.of_events [.reorgHaltCleared audit] (fun _ hi => hi) rfl ?_
  simp [Event.reorgPayload, Event.IsRaise]

end Tables

theorem Commits.harmless {weight : String → String} {blockIndex : Int} {t t' : Tables weight}
    (h : Commits blockIndex t t') : Tables.Harmless t t' := by
  rcases h.events with ⟨news, hevents, hnews⟩
  refine Tables.Harmless.of_events news (fun i hi => (h.pass.mem_heights i).mpr (.inl hi)) hevents ?_
  intro e he
  rcases hnews e he with ⟨_, _, _, _, _, rfl⟩
  simp [Event.reorgPayload, Event.IsRaise]

namespace ClearReorgHalt

variable {weight : String → String} {t t' : Tables weight} {c : Command} {h : Int} {pin : Nat}

/-! ## Section 3: What the checks of a command are worth -/

/-- A height that is not above the tip, or would not be without the deletes the
    command has not seen. -/
def Backed (t : Tables weight) (c : Command) (h : Int) : Prop :=
  h ≤ t.getLastBlockIndex ∨ ∃ d ∈ c.rolledBack, h ≤ d

/-- What a scan without a hit still says. -/
def Scanned (t : Tables weight) (c : Command) : Prop :=
  ∀ h ∈ t.reorgHeights REORG_SCAN_LIMIT, Backed t c h

/-- What the second read of the halt state still says. -/
def Pinned (t : Tables weight) (c : Command) (pin : Nat) : Prop :=
  c.raised = 0 → ∀ id e, rowById t.events id = some e → e.IsRaise → id ≤ pin

/-- What a command has established by the statement it stands at. -/
def Stage.Holds (t : Tables weight) (c : Command) : Stage → Prop
  | .scanningMarkers _ tip   => Backed t c tip
  | .countingDispensers _    => Scanned t c
  | .probingTransactions _ _ => Scanned t c
  | .checkingSqlMode _       => Scanned t c
  | .rereading _             => Scanned t c
  | .inserting pin           => Scanned t c ∧ Pinned t c pin
  | _                        => True

def Command.Sound (t : Tables weight) (c : Command) : Prop := c.stage.Holds t c

theorem Backed.mono {h' : Int} (hback : Backed t c h) (hle : h' ≤ h) : Backed t c h' :=
  hback.imp (Int.le_trans hle) (fun ⟨d, hd, hhd⟩ => ⟨d, hd, Int.le_trans hle hhd⟩)

/-- How a write carries over what a command has established: `f` is what the write adds
    to the history of the command. -/
structure Carries (t t' : Tables weight) (f : Command → Command) : Prop where
  stage   : ∀ c, (f c).stage = c.stage
  backed  : ∀ c h, Backed t c h → Backed t' (f c) h
  scanned : ∀ c, Scanned t c → Scanned t' (f c)
  pinned  : ∀ c pin, Pinned t c pin → Pinned t' (f c) pin

theorem Carries.sound {f : Command → Command} (hf : Carries t t' f) (hsound : c.Sound t) :
    (f c).Sound t' := by
  unfold Command.Sound at hsound ⊢
  rw [hf.stage]
  cases hstage : c.stage with
  | scanningMarkers pin tip =>
    rw [hstage] at hsound
    exact hf.backed c tip hsound
  | countingDispensers pin =>
    rw [hstage] at hsound
    exact hf.scanned c hsound
  | probingTransactions pin dispensers =>
    rw [hstage] at hsound
    exact hf.scanned c hsound
  | checkingSqlMode pin =>
    rw [hstage] at hsound
    exact hf.scanned c hsound
  | rereading pin =>
    rw [hstage] at hsound
    exact hf.scanned c hsound
  | inserting pin =>
    rw [hstage] at hsound
    exact ⟨hf.scanned c hsound.1, hf.pinned c pin hsound.2⟩
  | readingMarker => trivial
  | readingTip pin => trivial
  | confirming => trivial
  | exited exit => trivial

theorem carries_of_harmless (hharm : t.Harmless t') : Carries t t' id := by
  have hback : ∀ c h, Backed t c h → Backed t' c h :=
    fun c h hback => hback.imp_left (fun hle => Int.le_trans hle hharm.tip)
  refine ⟨fun _ => rfl, hback, ?_, ?_⟩
  · intro c hscan h hh
    exact hback c h (hscan h (hharm.marks h hh))
  · intro c pin hpin hraised id e hrow he
    exact hpin hraised id e (hharm.raises id e hrow he) he

theorem carries_deleteBlock (t : Tables weight) (blockIndex : Int) (hash : Option Hash) :
    Carries t (t.deleteBlockByIndex blockIndex hash) (Command.sawDelete blockIndex) := by
  have hback : ∀ c h, Backed t c h →
      Backed (t.deleteBlockByIndex blockIndex hash) (c.sawDelete blockIndex) h := by
    intro c h hback
    rcases hback with hle | ⟨d, hd, hle⟩
    · have htip := ChainRows.getLastBlockIndex_deleteBlock t.toChainRows blockIndex
      rw [← Tables.deleteBlockByIndex_toChainRows t blockIndex hash] at htip
      rcases htip with htip | htip
      · exact .inl (Int.le_trans hle htip)
      · have hle : h ≤ blockIndex := htip ▸ hle
        exact .inr ⟨blockIndex, List.mem_cons_self, hle⟩
    · exact .inr ⟨d, List.mem_cons_of_mem _ hd, hle⟩
  refine ⟨fun _ => rfl, hback, ?_, ?_⟩
  · intro c hscan h hh
    rcases Tables.mem_reorgHeights_deleteBlockByIndex hh with rfl | hold
    · exact .inr ⟨h, List.mem_cons_self, Int.le_refl h⟩
    · exact hback c h (hscan h hold)
  · intro c pin hpin hraised id e hrow he
    cases hash with
    | none => exact hpin hraised id e hrow he
    | some hash =>
      rw [Tables.deleteBlockByIndex_events] at hrow
      refine hpin hraised id e ?_ he
      exact rowById_append (p := Event.IsRaise) [.reorg [(blockIndex, hash)]]
        (by simp [Event.IsRaise]) he hrow

theorem carries_raise (t : Tables weight) (reason : HaltReason) :
    Carries t (t.insertEvent (.reorgHalt reason)) Command.sawHalt := by
  refine ⟨fun _ => rfl, fun _ _ hback => hback, fun _ hscan => hscan, ?_⟩
  intro c pin _ hraised
  simp [Command.sawHalt] at hraised

/-! ## Section 4: The statements of a command -/

/-- The scan is as good as the tip it went by. -/
theorem Backed.scanned {tip : Int} (hback : Backed t c tip)
    (hzero : t.countReorgDeletesAbove tip REORG_SCAN_LIMIT = 0) : Scanned t c :=
  fun h hh => hback.mono (Tables.countReorgDeletesAbove_eq_zero.mp hzero h hh)

/-- The second read pins the command to the newest halt row. -/
theorem pinned_of_reread (hhalted : t.readReorgHaltState.halted = true)
    (hpin : t.readReorgHaltState.id = some pin) (c : Command) : Pinned t c pin :=
  fun _ _ _ hrow he => raise_le_of_live hhalted hpin hrow he

/-- **Step lemma** for a statement that answers. -/
theorem Command.Sound.answered (likes : String → Bool) (hsound : c.Sound t) :
    (c.answered likes t).Sound t := by
  -- behind the scan every question leaves what it found alone
  have hscanned : Scanned t c → (∀ pin, c.stage ≠ .readingTip pin) →
      Scanned t (c.answered likes t) := by
    intro hscan hstage h hh
    have hrolled : (c.answered likes t).rolledBack = c.rolledBack := by
      cases hcase : c.stage <;> simp [Command.answered, hcase] at hstage ⊢
    simpa [Backed, hrolled] using hscan h hh
  show (c.next likes t).Holds t (c.answered likes t)
  unfold Command.Sound at hsound
  cases hstage : c.stage with
  | readingMarker =>
    by_cases hhalted : t.getReorgHaltMarker.halted = true
    · cases hid : t.getReorgHaltMarker.id <;> simp [Command.next, hstage, hhalted, hid, Stage.Holds]
    · simp [Command.next, hstage, hhalted, Stage.Holds]
  | readingTip pin =>
    simp only [Command.next, hstage]
    exact .inl (Int.le_refl _)
  | scanningMarkers pin tip =>
    rw [hstage] at hsound
    by_cases hzero : t.countReorgDeletesAbove tip REORG_SCAN_LIMIT = 0
    · simp only [Command.next, hstage, hzero, if_true]
      exact hscanned (Backed.scanned hsound hzero) (by simp [hstage])
    · simp [Command.next, hstage, hzero, Stage.Holds]
  | countingDispensers pin =>
    rw [hstage] at hsound
    simp only [Command.next, hstage]
    exact hscanned hsound (by simp [hstage])
  | probingTransactions pin dispensers =>
    rw [hstage] at hsound
    simp only [Command.next, hstage]
    split
    · exact hscanned hsound (by simp [hstage])
    · trivial
  | checkingSqlMode pin =>
    rw [hstage] at hsound
    simp only [Command.next, hstage]
    split
    · trivial
    · split
      · trivial
      · exact hscanned hsound (by simp [hstage])
  | rereading pin =>
    rw [hstage] at hsound
    by_cases hhalted : t.readReorgHaltState.halted = true
    · by_cases hpin : t.readReorgHaltState.id = some pin
      · simp only [Command.next, hstage, hhalted, hpin, Bool.not_true, Bool.false_eq_true, if_false,
          if_true]
        exact ⟨hscanned hsound (by simp [hstage]), pinned_of_reread hhalted hpin _⟩
      · simp [Command.next, hstage, hhalted, hpin, Stage.Holds]
    · simp [Command.next, hstage, hhalted, Stage.Holds]
  | inserting pin => simp [Command.next, hstage, Stage.Holds]
  | confirming =>
    simp only [Command.next, hstage]
    split <;> trivial
  | exited exit => simp [Command.next, hstage, Stage.Holds]

/-! ## Section 5: Clears that cover what they lift -/

/-- No halt row stands between the row the checks were pinned to and the clear row, and
    no rolled-back height is missing above the stored tip. -/
structure Cleared.Covers (r : Cleared weight) : Prop where
  halts    : ∀ id reason, rowById r.tables.events id = some (.reorgHalt reason) →
    ¬(r.pin < id ∧ id < r.id)
  resynced : r.tables.countReorgDeletesAboveTip = 0

/-- Nothing happened behind a command that its clear would have to cover: no halt row
    since it read the halt state again, and no delete since it read the tip of a block
    that is still above the stored tip. -/
def Undisturbed (t : Tables weight) (c : Command) : Prop :=
  c.raised = 0 ∧ ∀ h ∈ c.rolledBack, h ≤ t.getLastBlockIndex

instance (t : Tables weight) (c : Command) : Decidable (Undisturbed t c) :=
  inferInstanceAs (Decidable (_ ∧ _))

/-- An action inserts no clear row behind which something happened. -/
def InsertsUndisturbed (a : Action) (s : State weight) : Prop :=
  match a with
  | .command i answer => answer ≠ .failed → ∀ c ∈ s.commands[i]?, c.inserts → Undisturbed s.tables c
  | _ => True

instance (a : Action) (s : State weight) : Decidable (InsertsUndisturbed a s) :=
  match a with
  | .command i answer => inferInstanceAs (Decidable
      (answer ≠ .failed → ∀ c ∈ s.commands[i]?, c.inserts = true → Undisturbed s.tables c))
  | .issue _ | .ingest .. | .purgeDispensers .. | .purgeUndo _ | .deleteBlock .. | .readHalt
  | .insertHalt .. | .restart => isTrue trivial

structure Inv (s : State weight) : Prop where
  sound  : ∀ c ∈ s.commands, c.Sound s.tables
  covers : ∀ r ∈ s.cleared, r.Covers

/-- **A clear covers what it lifts** where nothing happened behind its checks. -/
theorem Command.Sound.covers (hsound : c.Sound t) (hstage : c.stage = .inserting pin)
    (hundisturbed : Undisturbed t c) (audit : Option String) :
    (Cleared.mk pin (t.events.length + 1) (t.insertEvent (.reorgHaltCleared audit))).Covers := by
  have hharm := Tables.harmless_insertClear t audit
  unfold Command.Sound at hsound
  rw [hstage] at hsound
  rcases hsound with ⟨hscan, hpin⟩
  rcases hundisturbed with ⟨hraised, hback⟩
  constructor
  · rintro id reason hrow ⟨hlt, -⟩
    have hle := hpin hraised id _ (hharm.raises id _ hrow ⟨reason, rfl⟩) ⟨reason, rfl⟩
    have hlt : pin < id := hlt
    omega
  · show Tables.countReorgDeletesAbove _ _ _ = 0
    rw [Tables.countReorgDeletesAbove_eq_zero]
    intro h hh
    have htip : t.getLastBlockIndex ≤ (t.insertEvent (.reorgHaltCleared audit)).getLastBlockIndex :=
      hharm.tip
    refine Int.le_trans ?_ htip
    rcases hscan h (hharm.marks h hh) with hle | ⟨d, hd, hle⟩
    · exact hle
    · exact Int.le_trans hle (hback d hd)

/-! ## Section 6: Every step keeps the invariant -/

section Steps

variable {s s' : State weight}

/-- A write of the decoder, with what it adds to the history of every command. -/
theorem Inv.carry (hinv : Inv s) {f : Command → Command} (hf : Carries s.tables t f) :
    Inv { s with tables := t, commands := s.commands.map f } := by
  refine ⟨?_, hinv.covers⟩
  intro c hc
  rcases List.mem_map.mp hc with ⟨c₀, hc₀, rfl⟩
  exact hf.sound (hinv.sound c₀ hc₀)

theorem Inv.harmless (hinv : Inv s) (hharm : s.tables.Harmless t) : Inv { s with tables := t } := by
  have hcarry := hinv.carry (carries_of_harmless hharm)
  simpa using hcarry

theorem Inv.marking (hinv : Inv s) (marking : Option Tables.HaltState) :
    Inv { s with marking := marking } := ⟨hinv.sound, hinv.covers⟩

theorem sound_issue (t : Tables weight) (args : Args) : (Command.issue args).Sound t := by
  unfold Command.Sound Command.issue
  dsimp only
  split
  · trivial
  · split
    · trivial
    · split <;> trivial

theorem Inv.issue (hinv : Inv s) (args : Args) :
    Inv { s with commands := s.commands ++ [Command.issue args] } := by
  refine ⟨?_, hinv.covers⟩
  intro c hc
  rcases List.mem_append.mp hc with hc | hc
  · exact hinv.sound c hc
  · rw [List.mem_singleton.mp hc]
    exact sound_issue s.tables args

/-- A command takes its place in the list again. -/
theorem Inv.set (hinv : Inv s) (i : Nat) (hsound : c.Sound s.tables) :
    Inv { s with commands := s.commands.set i c } := by
  refine ⟨?_, hinv.covers⟩
  intro c' hc'
  rcases List.mem_or_eq_of_mem_set hc' with hold | rfl
  · exact hinv.sound c' hold
  · exact hsound

theorem harmless_apply (s : State weight) (c : Command) : s.tables.Harmless (s.apply c).tables := by
  unfold State.apply
  split
  · exact Tables.harmless_insertClear s.tables _
  · exact Tables.Harmless.of_events [] (fun _ hi => hi) rfl nofun

theorem Inv.apply (hinv : Inv s) (hsound : c.Sound s.tables)
    (hundisturbed : c.inserts → Undisturbed s.tables c) : Inv (s.apply c) := by
  cases hstage : c.stage with
  | inserting pin =>
    have hsounds := (hinv.harmless (harmless_apply s c)).sound
    simp only [State.apply, hstage] at hsounds ⊢
    refine ⟨hsounds, ?_⟩
    intro r hr
    rcases List.mem_cons.mp hr with rfl | hr
    · exact hsound.covers hstage (hundisturbed (by simp [Command.inserts, hstage])) _
    · exact hinv.covers r hr
  | _ => simpa only [State.apply, hstage] using hinv

theorem sound_fails (t : Tables weight) (c : Command) : c.fails.Sound t := trivial

theorem Inv.execute (hinv : Inv s) {likes : String → Bool} {i : Nat} {answer : Answer}
    (hc : s.commands[i]? = some c)
    (hundisturbed : answer ≠ .failed → c.inserts → Undisturbed s.tables c) :
    Inv (s.execute likes i c answer) := by
  have hsound : c.Sound s.tables := hinv.sound c (List.mem_of_getElem? hc)
  unfold State.execute
  cases answer with
  | failed => exact hinv.set i (sound_fails s.tables c)
  | unacknowledged =>
    have happly := hinv.apply hsound (hundisturbed (by simp))
    exact happly.set i (sound_fails _ c)
  | answered =>
    have happly := hinv.apply hsound (hundisturbed (by simp))
    refine happly.set i ?_
    exact (carries_of_harmless (harmless_apply s c)).sound (hsound.answered likes)

end Steps

variable {cfg : Config} {rules : Rules} {likes : String → Bool} {s s' : State cfg.weight}
  {a : Action}

/-- **Step lemma.** -/
theorem Inv.step (hinv : Inv s) (hgood : InsertsUndisturbed a s)
    (hstep : step cfg rules likes a s = some s') : Inv s' := by
  cases a with
  | issue args =>
    simp only [ClearReorgHalt.step, Option.some.injEq] at hstep
    rw [← hstep]
    exact hinv.issue args
  | command i answer =>
    simp only [ClearReorgHalt.step] at hstep
    rcases Option.bind_eq_some_iff.mp hstep with ⟨c, hc, hstep⟩
    by_cases hrunning : c.running = true
    · simp only [hrunning, if_true, Option.some.injEq] at hstep
      rw [← hstep]
      exact hinv.execute hc (fun hanswer => hgood hanswer c hc)
    · simp [hrunning] at hstep
  | ingest quarantined hash block lastTxIndex =>
    simp only [ClearReorgHalt.step] at hstep
    -- neither a pass nor a purge raises a halt or deletes a block
    rcases Option.map_eq_some_iff.mp hstep with ⟨d, hingest, rfl⟩
    exact hinv.harmless (commits_ingestBlock hingest).harmless
  | purgeDispensers safeHeight graceFloor =>
    simp only [ClearReorgHalt.step, Option.some.injEq] at hstep
    rw [← hstep]
    exact hinv.harmless (Tables.Harmless.of_blocks rfl)
  | purgeUndo safeHeight =>
    simp only [ClearReorgHalt.step, Option.some.injEq] at hstep
    rw [← hstep]
    exact hinv.harmless (Tables.Harmless.of_blocks rfl)
  | deleteBlock blockIndex hash =>
    simp only [ClearReorgHalt.step, Option.ite_none_right_eq_some, Option.some.injEq] at hstep
    rw [← hstep.2]
    exact hinv.carry (carries_deleteBlock s.tables blockIndex hash)
  | readHalt =>
    simp only [ClearReorgHalt.step, Option.some.injEq] at hstep
    rw [← hstep]
    exact hinv.marking _
  | insertHalt reason answer =>
    cases hmarking : s.marking with
    | none => simp [ClearReorgHalt.step, hmarking] at hstep
    | some live =>
      simp only [ClearReorgHalt.step, hmarking, Option.ite_none_right_eq_some,
        Option.some.injEq] at hstep
      rw [← hstep.2]
      split
      · exact hinv.marking none
      · exact (hinv.marking none).carry (carries_raise s.tables reason)
  | restart =>
    simp only [ClearReorgHalt.step, Option.some.injEq] at hstep
    rw [← hstep]
    exact hinv.marking none

/-! ## Section 7: Every run -/

/-- **Main theorem.** In every interleaving in which no clear row is inserted behind a
    delete or a halt that its checks have not seen, every clear row covers what it
    lifts, whatever database the run starts on. -/
theorem covers_of_undisturbed {as : List Action} {t : Tables cfg.weight}
    (hgood : Runs.Along (ClearReorgHalt.step cfg rules likes) InsertsUndisturbed as (State.init t))
    (h : Runs.run (ClearReorgHalt.step cfg rules likes) as (State.init t) = some s) :
    ∀ r ∈ s.cleared, r.Covers := by
  have hinit : Inv (State.init t) := ⟨nofun, nofun⟩
  have hinv : Inv s :=
    Runs.run_invariant (fun _ _ _ hinv hgood hstep => hinv.step hgood hstep) hinit hgood h
  exact hinv.covers

end ClearReorgHalt

namespace Sample

open ClearReorgHalt

/-- An operator who compared the database with a replica. -/
def operator : Args := ⟨some "matches the replica", false, false, false, none⟩

/-- Statements of one command, each answered. -/
def statements (i n : Nat) : List ClearReorgHalt.Action := List.replicate n (.command i .answered)

/-- The decoder halts. -/
def halts (reason : HaltReason) : List ClearReorgHalt.Action :=
  [.readHalt, .insertHalt reason .answered]

/-- The chain A, B with one more block. -/
def longer : Tables id := (chain.insertBlock 2 1600001200 hashC hashB).getD chain

/-- A clear from start to end, with nothing in between. -/
def quiet : List ClearReorgHalt.Action :=
  halts .deleteFailedHashCompare ++ .issue operator :: statements 0 9

/-- The halt of a gap of two blocks, and its walk once the checks have passed. -/
def walked : List ClearReorgHalt.Action :=
  halts (.deepGap 1 (some hashB) 1 0 1) ++ .issue operator :: statements 0 6 ++
    [.deleteBlock 2 (some hashC), .deleteBlock 1 (some hashB)] ++ statements 0 3

/-- Two operators clear one halt, and the decoder halts again between them. -/
def overtakenClear : List ClearReorgHalt.Action :=
  halts .deleteFailedHashCompare ++ .issue operator :: .issue operator :: statements 0 7 ++
    statements 1 9 ++ halts .deleteFailedAboveTip ++ statements 0 2

/-- The clear rows of a run: the pinned row, the row itself, the heights missing above
    the tip as it is inserted, and what the database reads as from then on. -/
def clears (as : List ClearReorgHalt.Action) (t : Tables id) : Option (List (Nat × Nat × Nat × Bool)) :=
  (Runs.run (ClearReorgHalt.step config (rules true) (fun _ => false)) as (State.init t)).map
    (fun s => s.cleared.map (fun r =>
      (r.pin, r.id, r.tables.countReorgDeletesAboveTip, r.tables.isReorgHalted)))

/-- One clear row, and it covers the halt it lifts. -/
theorem covers_quiet : ∃ s, Runs.run (ClearReorgHalt.step config (rules true) (fun _ => false)) quiet
      (State.init chain) = some s ∧
    s.cleared.map (fun r => (r.pin, r.id)) = [(1, 2)] ∧ ∀ r ∈ s.cleared, r.Covers := by
  have hgood : Runs.Along (ClearReorgHalt.step config (rules true) (fun _ => false))
      InsertsUndisturbed quiet (State.init chain) := by decide
  have hclears : clears quiet chain = some [(1, 2, 0, false)] := by decide
  rcases Option.map_eq_some_iff.mp hclears with ⟨s, hrun, hrows⟩
  refine ⟨s, hrun, ?_, covers_of_undisturbed hgood hrun⟩
  have hids := congrArg (List.map (fun x : Nat × Nat × Nat × Bool => (x.1, x.2.1))) hrows
  simpa using hids

/-- The database reads as not halted, over two rolled-back blocks that no check saw and
    that are missing above the tip; or over a halt that came after the checks. -/
theorem uncovered_runs :
    (∃ s, Runs.run (ClearReorgHalt.step config (rules true) (fun _ => false)) walked
        (State.init longer) = some s ∧
      ∃ r ∈ s.cleared, r.tables.isReorgHalted = false ∧
        r.tables.countReorgDeletesAboveTip = 2 ∧ ¬r.Covers) ∧
    ∃ s, Runs.run (ClearReorgHalt.step config (rules true) (fun _ => false)) overtakenClear
        (State.init longer) = some s ∧
      ∃ r ∈ s.cleared, r.tables.isReorgHalted = false ∧ r.pin = 1 ∧ r.id = 4 ∧
        rowById r.tables.events 3 = some (.reorgHalt .deleteFailedAboveTip) ∧ ¬r.Covers := by
  constructor
  · have hclear : ∃ s ∈ Runs.run (ClearReorgHalt.step config (rules true) (fun _ => false)) walked
          (State.init longer),
        ∃ r ∈ s.cleared, r.tables.isReorgHalted = false ∧ r.tables.countReorgDeletesAboveTip = 2 := by
      decide
    rcases hclear with ⟨s, hrun, r, hr, hreads, hcount⟩
    refine ⟨s, hrun, r, hr, hreads, hcount, ?_⟩
    intro hcovers
    have hzero := hcovers.resynced
    omega
  · have hclear : ∃ s ∈ Runs.run (ClearReorgHalt.step config (rules true) (fun _ => false))
          overtakenClear (State.init longer),
        ∃ r ∈ s.cleared, r.tables.isReorgHalted = false ∧ r.pin = 1 ∧ r.id = 4 ∧
          rowById r.tables.events 3 = some (.reorgHalt .deleteFailedAboveTip) := by
      decide
    rcases hclear with ⟨s, hrun, r, hr, hreads, hpin, hid, hrow⟩
    refine ⟨s, hrun, r, hr, hreads, hpin, hid, hrow, ?_⟩
    intro hcovers
    exact hcovers.halts 3 _ hrow (by omega)

end Sample

end XChainDecoder
