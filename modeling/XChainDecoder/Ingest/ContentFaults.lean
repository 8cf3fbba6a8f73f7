import XChainDecoder.Parse.Faults
import XChainDecoder.Parse.Outputs
import XChainDecoder.Ingest.Quarantine

/-! # Content is never retried for ever

    The block loop retries a block without bound where a fault is marked. Over a node
    that serves the chain and a database that does not fail, no transaction raises a
    marked fault, so whatever a transaction contains, the blocks it is in are rolled back
    by it a few times, and then it is skipped. -/

namespace XChainDecoder

open Parse

/-! ## Section 1: A chain that is served -/

/-- The node serves the confirmed transactions, and what they spend from is confirmed. -/
structure ServesChain (lib : Library) (env : Surroundings) (confirmed : Txid → Prop) : Prop where
  serves : ∀ n txid, confirmed txid → ∃ bytes, env.getRawTransaction n txid = .raw bytes
  closed : ∀ txid tx, confirmed txid → Served lib env txid tx →
    ∀ prev, SpendsFrom tx.ins prev → confirmed prev

/-- A parse with nothing but the transaction to blame: the node serves the chain it is
    confirmed on, and the database does not fail. -/
structure Undisturbed (lib : Library) (env : Surroundings) (tx : BlockTransaction) : Prop where
  served   : ∃ confirmed, ServesChain lib env confirmed ∧
    ∀ txid, SpendsFrom tx.ins txid → confirmed txid
  database : ¬ DatabaseFails env

theorem ServesChain.confirmed_of_near {lib : Library} {env : Surroundings}
    {confirmed : Txid → Prop} (h : ServesChain lib env confirmed) {ins : List Wire.TxIn}
    (hins : ∀ txid, SpendsFrom ins txid → confirmed txid) {txid : Txid}
    (hnear : Near lib env ins txid) : confirmed txid := by
  rcases hnear with hnear | hnear
  · exact hins txid hnear
  · obtain ⟨first, tx, hfirst, hserved, hspends⟩ := hnear
    exact h.closed first tx (hins first hfirst) hserved txid hspends

theorem Undisturbed.unmarked {lib : Library} {env : Surroundings} {tx : BlockTransaction}
    (h : Undisturbed lib env tx) {e : Fault} (hblames : Blames env (Near lib env tx.ins) e) :
    e.Unmarked := by
  obtain ⟨confirmed, hchain, hins⟩ := h.served
  constructor
  · by_contra hmark
    obtain ⟨txid, hnear, n, hfails⟩ := hblames.rpc (by simpa using hmark)
    obtain ⟨bytes, hraw⟩ := hchain.serves n txid (hchain.confirmed_of_near hins hnear)
    rw [hraw] at hfails
    rcases hfails with hempty | hfailed
    · cases hempty
    · obtain ⟨error, hfailed⟩ := hfailed
      cases hfailed
  · by_contra hmark
    exact h.database (hblames.db (by simpa using hmark))

/-- What a parse, or the reading of an id, throws in a pass that nothing else disturbs. -/
def ContentFails (lib : Library) (net : Network) (blockHeight : Option Int) (e : Fault) : Prop :=
  (∃ message, e = .content message) ∨
    ∃ tx env openDispenserAddresses start trace, Undisturbed lib env tx ∧
      parseTransaction lib net openDispenserAddresses blockHeight tx env start =
        (.error (.thrown e), trace)

theorem classified_run {lib : Library} {net : Network} {openDispenserAddresses : String → Bool}
    {blockHeight : Option Int} {tx : BlockTransaction} {env : Surroundings} {start trace : Trace}
    {result : Except (Stop Fault) (Option ParsedTransaction)}
    (h : parseTransaction lib net openDispenserAddresses blockHeight tx env start =
      (result, trace)) :
    AsksOnly (Near lib env tx.ins) start trace ∧
      ∀ e, result = .error (.thrown e) → Blames env (Near lib env tx.ins) e := by
  have hends := classified_parseTransaction lib net openDispenserAddresses blockHeight tx env start
    start (AsksOnly.refl _ start)
  unfold Proc.wp at hends
  rw [h] at hends
  exact ⟨hends.1, hends.2.2⟩

theorem ContentFails.unmarked {lib : Library} {net : Network} {blockHeight : Option Int} {e : Fault}
    (h : ContentFails lib net blockHeight e) : e.Unmarked := by
  rcases h with hcontent | hparse
  · obtain ⟨message, rfl⟩ := hcontent
    exact Fault.unmarked_content message
  · obtain ⟨tx, env, openDispenserAddresses, start, trace, hcalm, hrun⟩ := hparse
    exact hcalm.unmarked ((classified_run hrun).2 e rfl)

/-! ## Section 2: The block loop -/

/-- The attempts of passes that nothing but content disturbs: the audit row can be
    written, and a parse fails by the transaction alone. -/
def ContentPasses (lib : Library) (net : Network) (blockHeight : Option Int) (passes : List Pass) :
    Prop :=
  ∀ pass ∈ passes, ∀ a ∈ pass.attempts, a.insertEvent = true ∧
    ∀ e, a.parse = .error e → ContentFails lib net blockHeight e

theorem ContentPasses.content {lib : Library} {net : Network} {blockHeight : Option Int}
    {passes : List Pass} (h : ContentPasses lib net blockHeight passes) :
    ∀ pass ∈ passes, ∀ a ∈ pass.attempts, a.Content := by
  intro pass hpass a ha
  obtain ⟨hrecorded, hfails⟩ := h pass hpass a ha
  exact ⟨hrecorded, fun e he => (hfails e he).unmarked⟩

/-- **Faults are classified blind to content.** Whatever the transaction, the node and
    the database: a parse asks only for transactions an input names, or an input of what
    it spends from, never for the id of nothing; and a mark on what it throws has a failed
    lookup behind it. So over a served chain and a database that does not fail no fault is
    marked; a parse failure is then counted within its retries or quarantined, and the
    parse of one position rolls back at most `TX_PARSE_MAX_RETRIES` passes of its block. -/
theorem faults_blind_to_content (lib : Library) (net : Network) (blockHeight : Option Int) :
    (∀ (tx : BlockTransaction) (openDispenserAddresses : String → Bool) (env : Surroundings)
      (start trace : Trace) (result : Except (Stop Fault) (Option ParsedTransaction)),
      parseTransaction lib net openDispenserAddresses blockHeight tx env start = (result, trace) →
      AsksOnly (Near lib env tx.ins) start trace ∧
      ∀ e, result = .error (.thrown e) →
        Blames env (Near lib env tx.ins) e ∧ (Undisturbed lib env tx → e.Unmarked)) ∧
    (∀ (key : QuarantineKey) (a : Attempt) (l : Ladder) (e : Fault), a.insertEvent = true →
      a.parse = .error e → ContentFails lib net blockHeight e → key ∉ l.insertQuarantine →
      (∃ l', l.ingestTransaction key a = (.rollback, l') ∧
        l'.parseRetries key = l.parseRetries key + 1 ∧
        l'.parseRetries key ≤ TX_PARSE_MAX_RETRIES) ∨
      ∃ l', l.ingestTransaction key a = (.goOn, l') ∧ key ∈ l'.parseQuarantine) ∧
    ∀ (block : Ladder.BlockId) (passes : List Pass) (l : Ladder) (txIndex : ℕ),
      ContentPasses lib net blockHeight passes →
      Ladder.parseRollbacks block txIndex passes l ≤
        TX_PARSE_MAX_RETRIES - l.parseRetries (Ladder.quarantineKey block txIndex) := by
  refine ⟨?_, ?_, ?_⟩
  · intro tx openDispenserAddresses env start trace result hrun
    obtain ⟨hasks, hblames⟩ := classified_run hrun
    exact ⟨hasks, fun e he => ⟨hblames e he, fun hcalm => hcalm.unmarked (hblames e he)⟩⟩
  · intro key a l e hrecorded hparse hfails hkey
    refine Ladder.ladder_of_content ⟨hrecorded, fun e' he' => ?_⟩ hparse hkey
    rw [hparse] at he'
    cases he'
    exact hfails.unmarked
  · intro block passes l txIndex hpasses
    exact Ladder.parseRollbacks_le txIndex passes l hpasses.content

namespace Parse.Sample

/-- The output `twoPayments` spends is a P2SH one, and a coinbase paid it. -/
def coinbasePaid : Library :=
  addressed (transaction [spend 0 []] [⟨9, [0xa9, 0x14] ++ List.replicate 20 5 ++ [0x87]⟩])

def coinbasePaidFault : Fault :=
  .content ("getSourceFromOutput: carrier output is paid by a coinbase; " ++
    "no funding output to walk back to")

theorem parse_coinbasePaid :
    parseTransaction coinbasePaid openNetwork (· = "dispenser") (some 100) twoPayments serving
        Trace.start =
      (.error (.thrown coinbasePaidFault), ⟨[Vector.replicate 32 3], [], 0, 0⟩) := by
  rfl

theorem serving_undisturbed (lib : Library) (tx : BlockTransaction) :
    Undisturbed lib serving tx where
  served   := ⟨fun _ => True, ⟨fun _ _ _ => ⟨[], rfl⟩, fun _ _ _ _ _ _ => trivial⟩,
    fun _ _ => trivial⟩
  database := by
    intro h
    rcases h with h | h | h
    · obtain ⟨address, error, h⟩ := h
      cases h
    · obtain ⟨addressId, error, h⟩ := h
      cases h
    · obtain ⟨addressId, pubkey, error, h⟩ := h
      cases h

/-- The coinbase is not asked for what it spends, and the fault is not marked. -/
theorem coinbasePaid_unmarked : coinbasePaidFault.Unmarked :=
  (((faults_blind_to_content coinbasePaid openNetwork (some 100)).1 twoPayments _ serving _ _ _
    parse_coinbasePaid).2 _ rfl).2 (serving_undisturbed _ _)

end Parse.Sample

end XChainDecoder
