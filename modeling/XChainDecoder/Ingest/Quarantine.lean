import Mathlib.Data.Finset.Card
import XChainDecoder.Ingest.Store
import XChainDecoder.Parse.Base

/-! # The quarantine ladder

    A transaction that cannot be parsed, or whose row the database refuses, is retried
    with its whole block a few times and then skipped, and the decoder counts what it
    skips. The state of this is kept by position of a block and outlives the passes that
    are rolled back.

    `quarantined_txs` is read off the passes of one block. It is the number of its
    quarantined positions, if each of them is counted once; a position of the insert
    ladder is counted in every pass that skips it, a position of the parse ladder in the
    pass that quarantines it. -/

namespace XChainDecoder

/-! ## Section 1: One position -/

/-- The quarantine state of the loop, and what the decoder reports of it. -/
structure Ladder where
  txParseRetryCounts     : List (QuarantineKey × ℕ)
  insertQuarantineCounts : List (QuarantineKey × ℕ)
  insertQuarantine       : List QuarantineKey
  parseQuarantine        : List QuarantineKey
  quarantinedTxs         : ℕ
  lastQuarantinedBlock   : Option Int
  lastQuarantinedTxHash  : Option Hash
deriving DecidableEq, Repr

def Ladder.boot : Ladder := ⟨[], [], [], [], 0, none, none⟩

/-- What storing a parsed transaction comes to. -/
inductive Stored where
  | through
  /-- the row is refused for its content -/
  | poison
  /-- any other ending that rolls the block back -/
  | rolledBack
deriving DecidableEq, Repr

/-- What comes of one position in one pass. -/
structure Attempt where
  /-- none where the id cannot be read -/
  id          : Option Hash
  /-- what the parse throws, or what storing its result comes to -/
  parse       : Except Parse.Fault Stored
  /-- whether the `PARSE_ERROR` row can be written -/
  insertEvent : Bool

/-- What comes of a position while the database does not fail and every parse failure
    is content. -/
structure Attempt.Content (a : Attempt) : Prop where
  recorded : a.insertEvent = true
  unmarked : ∀ e, a.parse = .error e → e.Unmarked

inductive Directive where
  | goOn
  | rollback
deriving DecidableEq, Repr

namespace Ladder

/-- `noteQuarantine`. -/
def noteQuarantine (height : Int) (hash : Option Hash) (l : Ladder) : Ladder :=
  { l with
    quarantinedTxs := l.quarantinedTxs + 1
    lastQuarantinedBlock := some height
    lastQuarantinedTxHash := hash }

/-- `skipQuarantinedTransaction`. -/
def skipQuarantinedTransaction (key : QuarantineKey) (a : Attempt) (l : Ladder) :
    Directive × Ladder :=
  if a.insertEvent then (.goOn, l.noteQuarantine key.1 a.id) else (.rollback, l)

/-- `handleParseFailure`: a marked fault retries the block and leaves no trace. -/
def handleParseFailure (key : QuarantineKey) (e : Parse.Fault) (a : Attempt) (l : Ladder) :
    Directive × Ladder :=
  if e.dbLookupFailure then (.rollback, l)
  else if e.rpcLookupFailure then (.rollback, l)
  else if key ∈ l.parseQuarantine then (if a.insertEvent then .goOn else .rollback, l)
  else
    let counted := { l with txParseRetryCounts := countAttempt l.txParseRetryCounts key }
    if attemptsOf l.txParseRetryCounts key ≤ TX_PARSE_MAX_RETRIES then (.rollback, counted)
    else if a.insertEvent then
      (.goOn, { counted.noteQuarantine key.1 a.id with
        parseQuarantine := key :: counted.parseQuarantine })
    else (.rollback, counted)

/-- The poison branch of `insertTransactionRow`. -/
def refuseRow (key : QuarantineKey) (l : Ladder) : Directive × Ladder :=
  (.rollback, { l with
    insertQuarantineCounts := countAttempt l.insertQuarantineCounts key
    insertQuarantine :=
      if TX_PARSE_MAX_RETRIES < attemptsOf l.insertQuarantineCounts key then
        key :: l.insertQuarantine
      else l.insertQuarantine })

/-- `ingestTransaction`, as far as the ladder goes. -/
def ingestTransaction (key : QuarantineKey) (a : Attempt) (l : Ladder) : Directive × Ladder :=
  if key ∈ l.insertQuarantine then l.skipQuarantinedTransaction key a
  else
    match a.parse with
    | .error e        => l.handleParseFailure key e a
    | .ok .through    => (.goOn, l)
    | .ok .poison     => l.refuseRow key
    | .ok .rolledBack => (.rollback, l)

/-- `clearQuarantineState`. -/
def clearQuarantineState (l : Ladder) : Ladder :=
  { l with
    txParseRetryCounts := [], insertQuarantineCounts := [], insertQuarantine := []
    parseQuarantine := [] }

/-! ## Section 2: One pass -/

/-- A block, by height and hash. -/
abbrev BlockId : Type := Int × Hash

/-- `quarantineKey`. -/
def quarantineKey (block : BlockId) (txIndex : ℕ) : QuarantineKey := (block.1, block.2, txIndex)

/-- The positions of a block from `txIndex` on, up to one that rolls the block back. -/
def ingestTransactions (block : BlockId) : ℕ → List Attempt → Ladder → Directive × Ladder
  | _,       [],      l => (.goOn, l)
  | txIndex, a :: as, l =>
      match l.ingestTransaction (quarantineKey block txIndex) a with
      | (.rollback, l') => (.rollback, l')
      | (.goOn, l')     => ingestTransactions block (txIndex + 1) as l'

end Ladder

/-- A pass: whether it gets to the transactions, what comes of each, and whether what
    follows them goes through, the commit included. -/
structure Pass where
  opens    : Bool
  attempts : List Attempt
  commits  : Bool

namespace Ladder

/-- `storeBlock`: whether the pass commits, and the ladder it ends with. -/
def storeBlock (block : BlockId) (pass : Pass) (l : Ladder) : Bool × Ladder :=
  if pass.opens then
    match l.ingestTransactions block 0 pass.attempts with
    | (.rollback, l') => (false, l')
    | (.goOn, l')     => (pass.commits, l')
  else (false, l)

/-- Passes of one block, none of which commits. -/
inductive Retried (block : BlockId) : Ladder → List Pass → Ladder → Prop where
  | nil (l : Ladder) : Retried block l [] l
  | cons {l l' l'' : Ladder} {pass : Pass} {passes : List Pass} :
      l.storeBlock block pass = (false, l') → Retried block l' passes l'' →
      Retried block l (pass :: passes) l''

/-! ## Section 3: What one position does -/

/-- The four things a position can do to the ladder. -/
inductive Moves (key : QuarantineKey) (a : Attempt) (l : Ladder) : Directive × Ladder → Prop where
  /-- it is skipped, and counted -/
  | skips : key ∈ l.insertQuarantine → a.insertEvent = true →
      Moves key a l (.goOn, l.noteQuarantine key.1 a.id)
  /-- neither quarantine changes, and nothing is counted -/
  | quiet (d : Directive) (l' : Ladder) : ¬ (key ∈ l.insertQuarantine ∧ a.insertEvent = true) →
      l'.insertQuarantine = l.insertQuarantine → l'.parseQuarantine = l.parseQuarantine →
      l'.quarantinedTxs = l.quarantinedTxs → Moves key a l (d, l')
  /-- it is quarantined by its parse, and counted -/
  | quarantines (l' : Ladder) : key ∉ l.insertQuarantine → key ∉ l.parseQuarantine →
      l'.insertQuarantine = l.insertQuarantine → l'.parseQuarantine = key :: l.parseQuarantine →
      l'.quarantinedTxs = l.quarantinedTxs + 1 → Moves key a l (.goOn, l')
  /-- it is quarantined by its row, and the block is rolled back -/
  | refused (l' : Ladder) : key ∉ l.insertQuarantine →
      l'.insertQuarantine = key :: l.insertQuarantine → l'.parseQuarantine = l.parseQuarantine →
      l'.quarantinedTxs = l.quarantinedTxs → Moves key a l (.rollback, l')

theorem moves_handleParseFailure {key : QuarantineKey} {a : Attempt} {l : Ladder} (e : Parse.Fault)
    (hkey : key ∉ l.insertQuarantine) : Moves key a l (l.handleParseFailure key e a) := by
  have hnot : ¬ (key ∈ l.insertQuarantine ∧ a.insertEvent = true) := fun h => hkey h.1
  unfold handleParseFailure
  split_ifs with hdb hrpc hknown hevent hretry hevent'
  · exact .quiet _ _ hnot rfl rfl rfl
  · exact .quiet _ _ hnot rfl rfl rfl
  · exact .quiet _ _ hnot rfl rfl rfl
  · exact .quiet _ _ hnot rfl rfl rfl
  · exact .quiet _ _ hnot rfl rfl rfl
  · exact .quarantines _ hkey hknown rfl rfl rfl
  · exact .quiet _ _ hnot rfl rfl rfl

theorem moves_ingestTransaction (key : QuarantineKey) (a : Attempt) (l : Ladder) :
    Moves key a l (l.ingestTransaction key a) := by
  unfold ingestTransaction
  by_cases hkey : key ∈ l.insertQuarantine
  · rw [if_pos hkey]
    unfold skipQuarantinedTransaction
    by_cases hevent : a.insertEvent = true
    · rw [if_pos hevent]
      exact .skips hkey hevent
    · rw [if_neg hevent]
      exact .quiet _ _ (fun h => hevent h.2) rfl rfl rfl
  · rw [if_neg hkey]
    have hnot : ¬ (key ∈ l.insertQuarantine ∧ a.insertEvent = true) := fun h => hkey h.1
    match a.parse with
    | .error e => exact moves_handleParseFailure e hkey
    | .ok .through => exact .quiet _ _ hnot rfl rfl rfl
    | .ok .rolledBack => exact .quiet _ _ hnot rfl rfl rfl
    | .ok .poison =>
      unfold refuseRow
      by_cases hattempts : TX_PARSE_MAX_RETRIES < attemptsOf l.insertQuarantineCounts key
      · exact .refused _ hkey (by rw [if_pos hattempts]) rfl rfl
      · exact .quiet _ _ hnot (by rw [if_neg hattempts]) rfl rfl

/-! ## Section 4: What a pass counts -/

/-- The positions of a block among keys. -/
def positionsIn (block : BlockId) (keys : List QuarantineKey) : Finset QuarantineKey :=
  (keys.filter (fun key => (key.1, key.2.1) = block)).toFinset

/-- The positions of a block that a ladder of either kind has quarantined. -/
def quarantined (block : BlockId) (l : Ladder) : Finset QuarantineKey :=
  positionsIn block l.parseQuarantine ∪ positionsIn block l.insertQuarantine

/-- The positions quarantined by both. -/
def quarantinedTwice (block : BlockId) (l : Ladder) : Finset QuarantineKey :=
  positionsIn block l.parseQuarantine ∩ positionsIn block l.insertQuarantine

/-- How often a pass writes the row of a position of the insert ladder. -/
def skipped (block : BlockId) : ℕ → List Attempt → Ladder → ℕ
  | _,       [],      _ => 0
  | txIndex, a :: as, l =>
      (if quarantineKey block txIndex ∈ l.insertQuarantine ∧ a.insertEvent = true then 1 else 0) +
        match l.ingestTransaction (quarantineKey block txIndex) a with
        | (.rollback, _) => 0
        | (.goOn, l')    => skipped block (txIndex + 1) as l'

section Counting

variable {block : BlockId}

theorem mem_positionsIn {keys : List QuarantineKey} {key : QuarantineKey} :
    key ∈ positionsIn block keys ↔ key ∈ keys ∧ (key.1, key.2.1) = block := by
  simp [positionsIn]

theorem positionsIn_cons (txIndex : ℕ) (keys : List QuarantineKey) :
    positionsIn block (quarantineKey block txIndex :: keys) =
      insert (quarantineKey block txIndex) (positionsIn block keys) := by
  simp [positionsIn, quarantineKey]

theorem quarantineKey_mem_positionsIn {keys : List QuarantineKey} {txIndex : ℕ} :
    quarantineKey block txIndex ∈ positionsIn block keys ↔ quarantineKey block txIndex ∈ keys := by
  rw [mem_positionsIn]
  exact and_iff_left rfl

theorem quarantineKey_injective : Function.Injective (quarantineKey block) := by
  intro i j h
  exact congrArg (fun key : QuarantineKey => key.2.2) h

/-- A position adds to the counter what it adds to the parse quarantine, and one for a
    skip. -/
theorem Moves.counted {txIndex : ℕ} {a : Attempt} {l : Ladder} {r : Directive × Ladder}
    (h : Moves (quarantineKey block txIndex) a l r) :
    r.2.quarantinedTxs + (positionsIn block l.parseQuarantine).card =
      l.quarantinedTxs + (positionsIn block r.2.parseQuarantine).card +
        if quarantineKey block txIndex ∈ l.insertQuarantine ∧ a.insertEvent = true then 1 else 0 := by
  cases h with
  | skips hkey hevent =>
    rw [if_pos ⟨hkey, hevent⟩]
    show l.quarantinedTxs + 1 + (positionsIn block l.parseQuarantine).card =
      l.quarantinedTxs + (positionsIn block l.parseQuarantine).card + 1
    omega
  | quiet d l' hnot hinsert hparse hcount =>
    rw [if_neg hnot]
    simp only [hparse, hcount]
    omega
  | quarantines l' hkey hnew hinsert hparse hcount =>
    have hfresh : quarantineKey block txIndex ∉ positionsIn block l.parseQuarantine := by
      rw [quarantineKey_mem_positionsIn]
      exact hnew
    rw [if_neg (fun h => hkey h.1)]
    simp only [hparse, hcount, positionsIn_cons, Finset.card_insert_of_notMem hfresh]
    omega
  | refused l' hkey hinsert hparse hcount =>
    rw [if_neg (fun h => hkey h.1)]
    simp only [hparse, hcount]
    omega

/-- A pass adds to the counter what it adds to the parse quarantine, and its skips. -/
theorem counted_ingestTransactions (attempts : List Attempt) :
    ∀ (txIndex : ℕ) (l : Ladder),
      (l.ingestTransactions block txIndex attempts).2.quarantinedTxs +
          (positionsIn block l.parseQuarantine).card =
        l.quarantinedTxs +
          (positionsIn block (l.ingestTransactions block txIndex attempts).2.parseQuarantine).card +
          skipped block txIndex attempts l := by
  induction attempts with
  | nil =>
    intro txIndex l
    rfl
  | cons a attempts ih =>
    intro txIndex l
    have hstep := (moves_ingestTransaction (quarantineKey block txIndex) a l).counted
    unfold ingestTransactions skipped
    cases hmove : l.ingestTransaction (quarantineKey block txIndex) a with
    | mk d l' =>
      rw [hmove] at hstep
      cases d with
      | rollback =>
        simp only at hstep ⊢
        omega
      | goOn =>
        have hrest := ih (txIndex + 1) l'
        simp only at hstep ⊢
        omega

/-- Of the insert ladder a pass knows positions of the block only. -/
def Bounded (block : BlockId) (n : ℕ) (l : Ladder) : Prop :=
  ∀ key ∈ positionsIn block l.insertQuarantine, ∃ txIndex < n, key = quarantineKey block txIndex

theorem Moves.bounded {n txIndex : ℕ} {a : Attempt} {l : Ladder} {r : Directive × Ladder}
    (h : Moves (quarantineKey block txIndex) a l r) (hlt : txIndex < n) (hbounded : Bounded block n l) :
    Bounded block n r.2 := by
  cases h with
  | skips hkey hevent => exact hbounded
  | quiet d l' hnot hinsert hparse hcount =>
    unfold Bounded
    rw [hinsert]
    exact hbounded
  | quarantines l' hkey hnew hinsert hparse hcount =>
    unfold Bounded
    rw [hinsert]
    exact hbounded
  | refused l' hkey hinsert hparse hcount =>
    unfold Bounded
    rw [hinsert, positionsIn_cons]
    intro key hmem
    rcases Finset.mem_insert.mp hmem with rfl | hmem
    · exact ⟨txIndex, hlt, rfl⟩
    · exact hbounded key hmem

theorem bounded_ingestTransactions {n : ℕ} (attempts : List Attempt) :
    ∀ (txIndex : ℕ) (l : Ladder), txIndex + attempts.length = n → Bounded block n l →
      Bounded block n (l.ingestTransactions block txIndex attempts).2 := by
  induction attempts with
  | nil => exact fun _ _ _ h => h
  | cons a attempts ih =>
    intro txIndex l hn hbounded
    rw [List.length_cons] at hn
    have hstep := (moves_ingestTransaction (quarantineKey block txIndex) a l).bounded
      (show txIndex < n by omega) hbounded
    unfold ingestTransactions
    cases hmove : l.ingestTransaction (quarantineKey block txIndex) a with
    | mk d l' =>
      rw [hmove] at hstep
      cases d with
      | rollback => exact hstep
      | goOn => exact ih (txIndex + 1) l' (by omega) hstep

/-- A position that lets the pass go on leaves the insert ladder, and of it adds none to
    the parse ladder. -/
theorem Moves.goOn {txIndex : ℕ} {a : Attempt} {l l' : Ladder}
    (h : Moves (quarantineKey block txIndex) a l (.goOn, l')) :
    l'.insertQuarantine = l.insertQuarantine ∧
      quarantinedTwice block l' = quarantinedTwice block l := by
  unfold quarantinedTwice
  cases h with
  | skips hkey hevent => exact ⟨rfl, rfl⟩
  | quiet d l' hnot hinsert hparse hcount => exact ⟨hinsert, by rw [hinsert, hparse]⟩
  | quarantines l' hkey hnew hinsert hparse hcount =>
    refine ⟨hinsert, ?_⟩
    rw [hinsert, hparse, positionsIn_cons, Finset.insert_inter_of_notMem]
    rw [quarantineKey_mem_positionsIn]
    exact hkey

/-- In a pass that goes on a position of the insert ladder is skipped, or stops it. -/
theorem insertEvent_of_goOn {key : QuarantineKey} {a : Attempt} {l l' : Ladder}
    (hkey : key ∈ l.insertQuarantine) (h : l.ingestTransaction key a = (.goOn, l')) :
    a.insertEvent = true := by
  unfold ingestTransaction skipQuarantinedTransaction at h
  rw [if_pos hkey] at h
  by_contra hnot
  rw [if_neg hnot] at h
  cases h

/-- A pass that goes through skips each position of the insert ladder once. -/
theorem skipped_of_goOn (attempts : List Attempt) :
    ∀ {txIndex : ℕ} {l l' : Ladder},
      l.ingestTransactions block txIndex attempts = (.goOn, l') →
      l'.insertQuarantine = l.insertQuarantine ∧
      quarantinedTwice block l' = quarantinedTwice block l ∧
      skipped block txIndex attempts l = ((List.range' txIndex attempts.length).filter
        (fun i => quarantineKey block i ∈ l.insertQuarantine)).length := by
  induction attempts with
  | nil =>
    intro txIndex l l' h
    cases h
    exact ⟨rfl, rfl, rfl⟩
  | cons a attempts ih =>
    intro txIndex l l' h
    unfold ingestTransactions at h
    cases hmove : l.ingestTransaction (quarantineKey block txIndex) a with
    | mk d next =>
      rw [hmove] at h
      cases d with
      | rollback => cases h
      | goOn =>
        have hmoves := moves_ingestTransaction (quarantineKey block txIndex) a l
        rw [hmove] at hmoves
        obtain ⟨hinsert, htwice⟩ := hmoves.goOn
        obtain ⟨hinsert', htwice', hskipped⟩ := ih h
        refine ⟨hinsert'.trans hinsert, htwice'.trans htwice, ?_⟩
        unfold skipped
        rw [hmove]
        simp only
        rw [hskipped, hinsert, List.length_cons, List.range'_succ]
        -- skipped here exactly where the key was quarantined before the pass
        by_cases hkey : quarantineKey block txIndex ∈ l.insertQuarantine
        · rw [if_pos ⟨hkey, insertEvent_of_goOn hkey hmove⟩,
            List.filter_cons_of_pos (by simpa using hkey), List.length_cons]
          omega
        · rw [if_neg (fun h => hkey h.1), List.filter_cons_of_neg (by simpa using hkey)]
          omega

theorem card_positionsIn {n : ℕ} {l : Ladder} (h : Bounded block n l) :
    (positionsIn block l.insertQuarantine).card = ((List.range' 0 n).filter
      (fun i => quarantineKey block i ∈ l.insertQuarantine)).length := by
  have heq : positionsIn block l.insertQuarantine = (((List.range' 0 n).filter
      (fun i => quarantineKey block i ∈ l.insertQuarantine)).map (quarantineKey block)).toFinset := by
    ext key
    simp only [List.mem_toFinset, List.mem_map, List.mem_filter, List.mem_range'_1,
      decide_eq_true_eq]
    constructor
    · intro hkey
      obtain ⟨txIndex, hlt, rfl⟩ := h key hkey
      exact ⟨txIndex, ⟨⟨Nat.zero_le _, by omega⟩, quarantineKey_mem_positionsIn.mp hkey⟩, rfl⟩
    · intro hkey
      obtain ⟨txIndex, ⟨-, hmem⟩, rfl⟩ := hkey
      exact quarantineKey_mem_positionsIn.mpr hmem
  have hnodup : (((List.range' 0 n).filter
      (fun i => quarantineKey block i ∈ l.insertQuarantine)).map (quarantineKey block)).Nodup :=
    (List.Nodup.filter _ List.nodup_range').map quarantineKey_injective
  rw [heq, List.toFinset_card_of_nodup hnodup, List.length_map]

/-! ## Section 5: What the passes of a block count -/

/-- The skips of a pass. -/
def skippedIn (block : BlockId) (pass : Pass) (l : Ladder) : ℕ :=
  if pass.opens then skipped block 0 pass.attempts l else 0

/-- The skips of passes that were all rolled back. -/
def skippedInVain (block : BlockId) : List Pass → Ladder → ℕ
  | [],             _ => 0
  | pass :: passes, l =>
      skippedIn block pass l + skippedInVain block passes (l.storeBlock block pass).2

theorem counted_storeBlock (pass : Pass) (l : Ladder) :
    (l.storeBlock block pass).2.quarantinedTxs + (positionsIn block l.parseQuarantine).card =
      l.quarantinedTxs + (positionsIn block (l.storeBlock block pass).2.parseQuarantine).card +
        skippedIn block pass l := by
  unfold storeBlock skippedIn
  by_cases hopens : pass.opens = true
  · have hpass := @counted_ingestTransactions block pass.attempts 0 l
    rw [if_pos hopens, if_pos hopens]
    cases hrun : l.ingestTransactions block 0 pass.attempts with
    | mk d l' =>
      rw [hrun] at hpass
      cases d with
      | rollback => exact hpass
      | goOn => exact hpass
  · rw [if_neg hopens, if_neg hopens]
    rfl

theorem bounded_storeBlock {pass : Pass} {l : Ladder}
    (h : Bounded block pass.attempts.length l) :
    Bounded block pass.attempts.length (l.storeBlock block pass).2 := by
  unfold storeBlock
  by_cases hopens : pass.opens = true
  · have hpass := bounded_ingestTransactions pass.attempts 0 l (Nat.zero_add _) h
    rw [if_pos hopens]
    cases hrun : l.ingestTransactions block 0 pass.attempts with
    | mk d l' =>
      rw [hrun] at hpass
      cases d with
      | rollback => exact hpass
      | goOn => exact hpass
  · rw [if_neg hopens]
    exact h

theorem Retried.counted {l l' : Ladder} {passes : List Pass} (h : Retried block l passes l') :
    l'.quarantinedTxs + (positionsIn block l.parseQuarantine).card =
      l.quarantinedTxs + (positionsIn block l'.parseQuarantine).card +
        skippedInVain block passes l := by
  induction h with
  | nil l => rfl
  | @cons l l' l'' pass passes hpass hrest ih =>
    have hfirst := @counted_storeBlock block pass l
    unfold skippedInVain
    rw [hpass] at hfirst ⊢
    simp only at hfirst ⊢
    omega

theorem Retried.bounded {n : ℕ} {l l' : Ladder} {passes : List Pass}
    (h : Retried block l passes l') (hlength : ∀ pass ∈ passes, pass.attempts.length = n)
    (hbounded : Bounded block n l) : Bounded block n l' := by
  induction h with
  | nil l => exact hbounded
  | @cons l l' l'' pass passes hpass hrest ih =>
    obtain ⟨hhead, htail⟩ := List.forall_mem_cons.mp hlength
    refine ih htail ?_
    subst hhead
    have hfirst := bounded_storeBlock hbounded
    rw [hpass] at hfirst
    exact hfirst

/-- The pass that commits counts its skips, one for each position of the insert ladder. -/
theorem storeBlock_committed {pass : Pass} {l l' : Ladder}
    (hcommit : l.storeBlock block pass = (true, l')) (h : Bounded block pass.attempts.length l) :
    l'.insertQuarantine = l.insertQuarantine ∧
      quarantinedTwice block l' = quarantinedTwice block l ∧
      skippedIn block pass l = (positionsIn block l.insertQuarantine).card := by
  unfold storeBlock at hcommit
  unfold skippedIn
  by_cases hopens : pass.opens = true
  · rw [if_pos hopens] at hcommit ⊢
    cases hrun : l.ingestTransactions block 0 pass.attempts with
    | mk d next =>
      rw [hrun] at hcommit
      cases d with
      | rollback => cases hcommit
      | goOn =>
        obtain ⟨-, rfl⟩ := Prod.mk.inj hcommit
        obtain ⟨hinsert, htwice, hskipped⟩ := skipped_of_goOn pass.attempts hrun
        exact ⟨hinsert, htwice, hskipped.trans (card_positionsIn h).symm⟩
  · rw [if_neg hopens] at hcommit
    cases hcommit

/-- **What the counter says.** Over the passes of a block up to its commit the counter
    rises by the quarantined positions, by the positions quarantined on both ladders once
    more, and by every skip of a pass that was rolled back. -/
theorem quarantinedTxs_of_committed {l l' l'' : Ladder} {passes : List Pass} {last : Pass} {n : ℕ}
    (hfresh : quarantined block l = ∅)
    (hlength : ∀ pass ∈ last :: passes, pass.attempts.length = n)
    (hretried : Retried block l passes l') (hcommit : l'.storeBlock block last = (true, l'')) :
    l''.quarantinedTxs = l.quarantinedTxs + (quarantined block l'').card +
      (quarantinedTwice block l').card + skippedInVain block passes l := by
  obtain ⟨hlast, hpasses⟩ := List.forall_mem_cons.mp hlength
  obtain ⟨hparse, hinsert⟩ := Finset.union_eq_empty.mp hfresh
  have hstart : Bounded block n l := by
    unfold Bounded
    rw [hinsert]
    exact nofun
  have hbounded := hretried.bounded hpasses hstart
  subst hlast
  obtain ⟨hkept, htwice, hskipped⟩ := storeBlock_committed hcommit hbounded
  have hcounted := hretried.counted
  have hcounted' := @counted_storeBlock block last l'
  rw [hcommit, hskipped] at hcounted'
  simp only at hcounted'
  have hunion := Finset.card_union_add_card_inter (positionsIn block l''.parseQuarantine)
    (positionsIn block l''.insertQuarantine)
  rw [hparse, Finset.card_empty] at hcounted
  rw [← htwice]
  unfold quarantined quarantinedTwice
  rw [hkept] at hunion ⊢
  omega

/-- **Each skipped transaction is counted once**, over all passes of a block up to its
    commit, exactly if no pass that was rolled back has skipped a position of the insert
    ladder, and no position is on both ladders when the last pass begins. -/
theorem quarantinedTxs_counts_once {l l' l'' : Ladder} {passes : List Pass} {last : Pass} {n : ℕ}
    (hfresh : quarantined block l = ∅)
    (hlength : ∀ pass ∈ last :: passes, pass.attempts.length = n)
    (hretried : Retried block l passes l') (hcommit : l'.storeBlock block last = (true, l'')) :
    l''.clearQuarantineState.quarantinedTxs = l.quarantinedTxs + (quarantined block l'').card ↔
      skippedInVain block passes l = 0 ∧ quarantinedTwice block l' = ∅ := by
  have hcount := quarantinedTxs_of_committed hfresh hlength hretried hcommit
  show l''.quarantinedTxs = _ ↔ _
  rw [← Finset.card_eq_zero]
  omega

end Counting

namespace Sample

def block : BlockId := (7, ⟨"0000000000000000000000000000000000000000000000000000000000000007", by decide⟩)

/-- The row is refused wherever it is inserted. -/
def refuses : Attempt := ⟨none, .ok .poison, true⟩

def stores : Attempt := ⟨none, .ok .through, true⟩

def pass (attempts : List Attempt) : Pass := ⟨true, attempts, true⟩

/-- Four passes get the first transaction quarantined. -/
def quarantined : Ladder :=
  { Ladder.boot with
    insertQuarantineCounts := [(quarantineKey block 0, 4), (quarantineKey block 0, 3),
      (quarantineKey block 0, 2), (quarantineKey block 0, 1)]
    insertQuarantine := [quarantineKey block 0] }

theorem retried_quarantined :
    Retried block Ladder.boot (List.replicate 4 (pass [refuses, stores])) quarantined :=
  .cons rfl (.cons rfl (.cons rfl (.cons rfl (.nil _))))

/-- The fifth pass commits, and counts it. -/
theorem counted_once :
    (quarantined.storeBlock block (pass [refuses, stores])).2.clearQuarantineState.quarantinedTxs =
      Ladder.boot.quarantinedTxs + 1 := by
  have hlength : ∀ p ∈ pass [refuses, stores] :: List.replicate 4 (pass [refuses, stores]),
      p.attempts.length = 2 := by decide
  exact (quarantinedTxs_counts_once rfl hlength retried_quarantined rfl).mpr ⟨rfl, rfl⟩

/-- A fifth pass skips it and is rolled back by the second transaction, whose row is
    refused once; the sixth skips it again and commits. One position, counted twice. -/
theorem counted_twice :
    ∃ l' l'', Retried block Ladder.boot
        (List.replicate 4 (pass [refuses, stores]) ++ [pass [refuses, refuses]]) l' ∧
      l'.storeBlock block (pass [refuses, stores]) = (true, l'') ∧
      (Ladder.quarantined block l'').card = 1 ∧
      l''.clearQuarantineState.quarantinedTxs ≠
        Ladder.boot.quarantinedTxs + (Ladder.quarantined block l'').card :=
  ⟨_, _, .cons rfl (.cons rfl (.cons rfl (.cons rfl (.cons rfl (.nil _))))), rfl, rfl, by decide⟩

end Sample

/-! ## Section 6: A parse that fails is retried a bounded number of times -/

/-- The failed parses of a position that have been counted. -/
def parseRetries (l : Ladder) (key : QuarantineKey) : ℕ :=
  ((l.txParseRetryCounts.find? (fun a => a.1 = key)).map Prod.snd).getD 0

/-- The position at which a pass is rolled back by a parse. -/
def failingParse (block : BlockId) : ℕ → List Attempt → Ladder → Option ℕ
  | _,       [],      _ => none
  | txIndex, a :: as, l =>
      match l.ingestTransaction (quarantineKey block txIndex) a with
      | (.goOn, l')    => failingParse block (txIndex + 1) as l'
      | (.rollback, _) =>
          match a.parse with
          | .error _ => some txIndex
          | .ok _    => none

/-- The passes that are rolled back by the parse of one position. -/
def parseRollbacks (block : BlockId) (txIndex : ℕ) : List Pass → Ladder → ℕ
  | [],             _ => 0
  | pass :: passes, l =>
      (if pass.opens = true ∧ failingParse block 0 pass.attempts l = some txIndex then 1 else 0) +
        parseRollbacks block txIndex passes (l.storeBlock block pass).2

section Retries

variable {block : BlockId}

theorem attemptsOf_txParseRetryCounts (l : Ladder) (key : QuarantineKey) :
    attemptsOf l.txParseRetryCounts key = l.parseRetries key + 1 := rfl

/-- A count goes up by one, the others stay. -/
theorem parseRetries_countAttempt {l l' : Ladder} {key : QuarantineKey}
    (h : l'.txParseRetryCounts = countAttempt l.txParseRetryCounts key) (other : QuarantineKey) :
    l'.parseRetries other = if other = key then l.parseRetries key + 1 else l.parseRetries other := by
  unfold parseRetries
  rw [h, countAttempt, List.find?_cons]
  by_cases heq : other = key
  · rw [if_pos heq, heq]
    simp [attemptsOf]
  · rw [if_neg heq]
    simp [Ne.symm heq]

theorem parseRetries_le_countAttempt {l l' : Ladder} {key : QuarantineKey}
    (h : l'.txParseRetryCounts = countAttempt l.txParseRetryCounts key) (other : QuarantineKey) :
    l.parseRetries other ≤ l'.parseRetries other := by
  rw [parseRetries_countAttempt h other]
  split_ifs with heq
  · rw [heq]
    omega
  · exact Nat.le_refl _

theorem parseRetries_handleParseFailure (key : QuarantineKey) (e : Parse.Fault) (a : Attempt)
    (l : Ladder) (other : QuarantineKey) :
    l.parseRetries other ≤ (l.handleParseFailure key e a).2.parseRetries other := by
  unfold handleParseFailure
  split_ifs with hdb hrpc hknown hevent hretry hevent'
  · exact Nat.le_refl _
  · exact Nat.le_refl _
  · exact Nat.le_refl _
  · exact Nat.le_refl _
  · exact parseRetries_le_countAttempt rfl other
  · exact parseRetries_le_countAttempt rfl other
  · exact parseRetries_le_countAttempt rfl other

/-- No count of failed parses goes down. -/
theorem parseRetries_ingestTransaction (key : QuarantineKey) (a : Attempt) (l : Ladder)
    (other : QuarantineKey) :
    l.parseRetries other ≤ (l.ingestTransaction key a).2.parseRetries other := by
  unfold ingestTransaction
  by_cases hkey : key ∈ l.insertQuarantine
  · rw [if_pos hkey]
    unfold skipQuarantinedTransaction
    split_ifs
    · exact Nat.le_refl _
    · exact Nat.le_refl _
  · rw [if_neg hkey]
    match a.parse with
    | .error e => exact parseRetries_handleParseFailure key e a l other
    | .ok .through => exact Nat.le_refl _
    | .ok .poison => exact Nat.le_refl _
    | .ok .rolledBack => exact Nat.le_refl _

/-- **One step of the ladder.** A parse that fails by its content either rolls the block
    back, counted and within its retries, or leaves the position quarantined. -/
theorem ladder_of_content {key : QuarantineKey} {a : Attempt} {l : Ladder} {e : Parse.Fault}
    (ha : a.Content) (hparse : a.parse = .error e) (hkey : key ∉ l.insertQuarantine) :
    (∃ l', l.ingestTransaction key a = (.rollback, l') ∧
      l'.parseRetries key = l.parseRetries key + 1 ∧ l'.parseRetries key ≤ TX_PARSE_MAX_RETRIES) ∨
    ∃ l', l.ingestTransaction key a = (.goOn, l') ∧ key ∈ l'.parseQuarantine := by
  obtain ⟨hrpc, hdb⟩ := ha.unmarked e hparse
  unfold ingestTransaction
  rw [if_neg hkey, hparse]
  simp only [handleParseFailure, hrpc, hdb, ha.recorded, Bool.false_eq_true, if_false, if_true]
  by_cases hknown : key ∈ l.parseQuarantine
  · rw [if_pos hknown]
    exact .inr ⟨l, rfl, hknown⟩
  · rw [if_neg hknown]
    by_cases hretry : attemptsOf l.txParseRetryCounts key ≤ TX_PARSE_MAX_RETRIES
    · rw [if_pos hretry]
      refine .inl ⟨_, rfl, ?_⟩
      have hcount := @parseRetries_countAttempt l { l with
        txParseRetryCounts := countAttempt l.txParseRetryCounts key } key rfl key
      rw [if_pos rfl] at hcount
      rw [attemptsOf_txParseRetryCounts] at hretry
      rw [hcount]
      exact ⟨rfl, hretry⟩
    · rw [if_neg hretry]
      exact .inr ⟨_, rfl, List.mem_cons_self⟩

theorem parseRetries_of_rollback {key : QuarantineKey} {a : Attempt} {l l' : Ladder}
    {e : Parse.Fault} (ha : a.Content) (hparse : a.parse = .error e)
    (h : l.ingestTransaction key a = (.rollback, l')) :
    l'.parseRetries key = l.parseRetries key + 1 ∧ l'.parseRetries key ≤ TX_PARSE_MAX_RETRIES := by
  have hkey : key ∉ l.insertQuarantine := by
    intro hkey
    unfold ingestTransaction skipQuarantinedTransaction at h
    rw [if_pos hkey, if_pos ha.recorded] at h
    cases h
  rcases ladder_of_content ha hparse hkey with hback | hon
  · obtain ⟨next, hrun, hcount⟩ := hback
    rw [h] at hrun
    cases hrun
    exact hcount
  · obtain ⟨next, hrun, -⟩ := hon
    rw [h] at hrun
    cases hrun

theorem parseRetries_ingestTransactions (attempts : List Attempt) :
    ∀ (txIndex : ℕ) (l : Ladder) (key : QuarantineKey),
      l.parseRetries key ≤ (l.ingestTransactions block txIndex attempts).2.parseRetries key := by
  induction attempts with
  | nil => exact fun _ _ _ => Nat.le_refl _
  | cons a attempts ih =>
    intro txIndex l key
    have hstep := parseRetries_ingestTransaction (quarantineKey block txIndex) a l key
    unfold ingestTransactions
    cases hmove : l.ingestTransaction (quarantineKey block txIndex) a with
    | mk d l' =>
      rw [hmove] at hstep
      cases d with
      | rollback => exact hstep
      | goOn => exact hstep.trans (ih (txIndex + 1) l' key)

theorem parseRetries_of_failingParse (attempts : List Attempt) :
    ∀ {txIndex i : ℕ} {l : Ladder}, (∀ a ∈ attempts, a.Content) →
      failingParse block txIndex attempts l = some i →
      let l' := (l.ingestTransactions block txIndex attempts).2
      l.parseRetries (quarantineKey block i) + 1 ≤ l'.parseRetries (quarantineKey block i) ∧
        l'.parseRetries (quarantineKey block i) ≤ TX_PARSE_MAX_RETRIES := by
  induction attempts with
  | nil =>
    intro txIndex i l _ h
    cases h
  | cons a attempts ih =>
    intro txIndex i l hcontent h
    obtain ⟨ha, hrest⟩ := List.forall_mem_cons.mp hcontent
    have hstep := parseRetries_ingestTransaction (quarantineKey block txIndex) a l
      (quarantineKey block i)
    unfold failingParse at h
    unfold ingestTransactions
    cases hmove : l.ingestTransaction (quarantineKey block txIndex) a with
    | mk d l' =>
      rw [hmove] at h hstep
      cases d with
      | rollback =>
        cases hparse : a.parse with
        | ok stored =>
          rw [hparse] at h
          cases h
        | error e =>
          rw [hparse] at h
          cases h
          obtain ⟨hcount, hretries⟩ := parseRetries_of_rollback ha hparse hmove
          exact ⟨Nat.le_of_eq hcount.symm, hretries⟩
      -- the failing transaction comes later, and this one takes no retry from it
      | goOn =>
        obtain ⟨hcount, hretries⟩ := ih hrest h
        exact ⟨Nat.le_trans (Nat.add_le_add_right hstep 1) hcount, hretries⟩

/-- **Bounded retries.** While the database does not fail and every parse failure is
    content, the parse of a position rolls back at most `TX_PARSE_MAX_RETRIES` passes of
    its block, less those it has been counted for. -/
theorem parseRollbacks_le (txIndex : ℕ) (passes : List Pass) :
    ∀ l : Ladder, (∀ pass ∈ passes, ∀ a ∈ pass.attempts, a.Content) →
      parseRollbacks block txIndex passes l ≤
        TX_PARSE_MAX_RETRIES - l.parseRetries (quarantineKey block txIndex) := by
  induction passes with
  | nil => exact fun _ _ => Nat.zero_le _
  | cons pass passes ih =>
    intro l hcontent
    obtain ⟨hpass, hrest⟩ := List.forall_mem_cons.mp hcontent
    have hlater := ih (l.storeBlock block pass).2 hrest
    unfold parseRollbacks
    by_cases hopens : pass.opens = true
    · have hend : (l.storeBlock block pass).2 = (l.ingestTransactions block 0 pass.attempts).2 := by
        unfold storeBlock
        rw [if_pos hopens]
        split
        · next heq => rw [heq]
        · next heq => rw [heq]
      rw [hend] at hlater ⊢
      -- a pass that this transaction ends costs it one retry
      by_cases hfails : failingParse block 0 pass.attempts l = some txIndex
      · obtain ⟨hcount, hretries⟩ := parseRetries_of_failingParse pass.attempts hpass hfails
        rw [if_pos ⟨hopens, hfails⟩]
        omega
      · have hcount := @parseRetries_ingestTransactions block pass.attempts 0 l
          (quarantineKey block txIndex)
        rw [if_neg (fun h => hfails h.2)]
        omega
    · have hend : (l.storeBlock block pass).2 = l := by
        unfold storeBlock
        rw [if_neg hopens]
      rw [hend] at hlater ⊢
      rw [if_neg (fun h => hopens h.1)]
      omega

end Retries

end Ladder

end XChainDecoder
