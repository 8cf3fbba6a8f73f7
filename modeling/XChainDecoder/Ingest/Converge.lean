import XChainDecoder.Lib.Runs
import XChainDecoder.Ingest.Resolve
import XChainDecoder.Reorg.Run

/-! # The tables are a function of the chain

    A decoder that ingested an orphaned branch and deleted it again differs from one
    that never saw the branch in its lookup tables only: the branch left numbers behind.
    Since a pass reads no number, both store the same from there on.

    **Main theorems.** `named_run`, `Reachable.rollBack_ingestChain`,
    `reorg_converges`. -/

namespace XChainDecoder

variable {weight : String → String} {S : String → Prop} {rules : Rules}

/-! ## Section 1: Runs -/

/-- What a decoder does to its chain rows. -/
inductive ChainAction where
  | ingest (quarantined : Nat → Bool) (blockIndex : Int) (hash : Hash) (block : RawBlock)
      (lastTxIndex : Int)
  | delete (blockIndex : Int) (reorgBlockHash : Option Hash)
  | purge (safeHeight : Int) (graceFloor : Option Int)

/-- Every address its transactions can come to name is in `S`. -/
def ChainAction.Within (S : String → Prop) (rules : Rules) : ChainAction → Prop
  | .ingest _ _ _ block _ => ∀ tx ∈ block.transactions, tx.Within S rules
  | _                     => True

/-- One action on the tables; `none` where the pass ends in a rollback. -/
def Tables.act (rules : Rules) : ChainAction → Tables weight → Option (Tables weight)
  | .ingest quarantined blockIndex hash block lastTxIndex, t =>
      (Draft.ingestBlock rules quarantined blockIndex hash block t lastTxIndex).map Draft.tables
  | .delete blockIndex reorgBlockHash, t => some (t.deleteBlockByIndex blockIndex reorgBlockHash)
  | .purge safeHeight graceFloor, t => some (t.purgeExpiredDispensers safeHeight graceFloor)

/-- The same action on the store without numbers. -/
def Named.act (rules : Rules) : ChainAction → Named → Option Named
  | .ingest quarantined blockIndex hash block lastTxIndex, s =>
      (NamedDraft.ingestBlock rules quarantined blockIndex hash block s lastTxIndex).map
        NamedDraft.store
  | .delete blockIndex _, s => some (s.deleteBlock blockIndex)
  | .purge safeHeight graceFloor, s => some (s.purgeExpiredDispensers safeHeight graceFloor)

def Named.empty : Named := ⟨[], [], [], [], []⟩

theorem says_act (hS : Tables.Apart weight S) {t : Tables weight} {s : Named}
    (h : Tables.Says S t s) {a : ChainAction} (ha : a.Within S rules) :
    Option.Rel (Tables.Says S) (t.act rules a) (s.act rules a) := by
  cases a with
  | ingest quarantined blockIndex hash block lastTxIndex =>
    -- the pass starts from what the tables say
    rw [← h.named]
    have hpass := Draft.says_ingestBlock hS h.sound quarantined hash ha lastTxIndex
      (n := blockIndex)
    show Option.Rel _ (Option.map Draft.tables _) (Option.map NamedDraft.store _)
    rw [Option.map_eq_bind, Option.map_eq_bind]
    exact InStep.bind hpass (fun d e hde => .some hde.tables)
  | delete blockIndex reorgBlockHash =>
    exact .some (Tables.says_deleteBlockByIndex h blockIndex reorgBlockHash)
  | purge safeHeight graceFloor =>
    exact .some (Tables.says_purgeExpiredDispensers h safeHeight graceFloor)

theorem says_run (hS : Tables.Apart weight S) (as : List ChainAction) :
    ∀ {t : Tables weight} {s : Named}, Tables.Says S t s → (∀ a ∈ as, a.Within S rules) →
    Option.Rel (Tables.Says S) (Runs.run (Tables.act rules) as t) (Runs.run (Named.act rules) as s) := by
  induction as with
  | nil => exact fun h _ => .some h
  | cons a as ih =>
    intro t s h has
    apply InStep.bind (says_act hS h (has a List.mem_cons_self))
    intro t' s' h'
    exact ih h' (fun a' ha' => has a' (List.mem_cons_of_mem a ha'))

/-- **Main theorem.** Over any run the tables say what a store without numbers holds
    after the same run. -/
theorem named_run (hS : Tables.Apart weight S) (hblank : S "") {as : List ChainAction}
    (has : ∀ a ∈ as, a.Within S rules) :
    (Runs.run (Tables.act rules) as (Tables.fresh weight)).map Tables.named =
      Runs.run (Named.act rules) as Named.empty :=
  InStep.map_eq (says_run hS as (Tables.sound_fresh hblank).told has) (fun _ _ h => h.named)

/-! ## Section 2: Branches -/

/-- A block of a branch, with the positions of it that are quarantined. -/
structure ChainBlock where
  hash        : Hash
  block       : RawBlock
  quarantined : Nat → Bool

def ChainBlock.Within (S : String → Prop) (rules : Rules) (b : ChainBlock) : Prop :=
  ∀ tx ∈ b.block.transactions, tx.Within S rules

/-- The passes of a branch from height `n` on, the transaction counter carried along. -/
def ingestChain (rules : Rules) :
    List ChainBlock → Int → Int → Tables weight → Option (Tables weight)
  | [],      _, _,           t => some t
  | b :: bs, n, lastTxIndex, t =>
      (Draft.ingestBlock rules b.quarantined n b.hash b.block t lastTxIndex).bind
        (fun d => ingestChain rules bs (n + 1) d.lastTxIndex d.tables)

/-- Delete `k` blocks from the top, the last one of height `n`. Each is recorded under
    the hash that was stored for it. -/
def rollBack (n : Int) : Nat → Tables weight → Tables weight
  | 0,     t => t
  | k + 1, t =>
      let t := rollBack (n + 1) k t
      t.deleteBlockByIndex n ((t.getBlockByIndex n).bind Block.blockHash)

namespace Tables

theorem grows_deleteBlockByIndex (t : Tables weight) (n : Int) (hash : Option Hash) :
    Grows t (t.deleteBlockByIndex n hash) := by
  cases hash with
  | none => exact ⟨List.prefix_rfl, List.prefix_rfl, List.prefix_rfl, List.suffix_rfl⟩
  | some hash =>
    exact ⟨List.prefix_rfl, List.prefix_rfl, List.prefix_rfl, List.suffix_cons _ _⟩

theorem toChainRows_deleteBlockByIndex (t : Tables weight) (n : Int) (hash : Option Hash) :
    (t.deleteBlockByIndex n hash).toChainRows = t.toChainRows.deleteBlock n := by
  cases hash <;> rfl

end Tables

/-- **Run lemma.** Deleting a branch from the top gives back the rows it was put on,
    and leaves the lookup and audit tables grown. -/
theorem undone_ingestChain (bs : List ChainBlock) :
    ∀ {t t' : Tables weight} {n lastTxIndex : Int}, t.toChainRows.Wf →
    ingestChain rules bs n lastTxIndex t = some t' →
    (rollBack n bs.length t').toChainRows = t.toChainRows ∧
      Tables.Grows t (rollBack n bs.length t') := by
  induction bs with
  | nil =>
    intro t t' n lastTxIndex _ h
    rw [Option.some.inj h]
    exact ⟨rfl, Tables.Grows.refl t'⟩
  | cons b bs ih =>
    intro t t' n lastTxIndex hwf h
    obtain ⟨d, hd, hrest⟩ := Option.bind_eq_some_iff.mp h
    have hpass := commits_ingestBlock hd
    -- undone from the top: the rest of the branch first, then this block
    obtain ⟨hwf', hundone⟩ := hpass.pass.wf_and_deleteBlock hwf
    obtain ⟨hrows, hgrows⟩ := ih hwf' hrest
    have hdelete := Tables.grows_deleteBlockByIndex (rollBack (n + 1) bs.length t') n
      (((rollBack (n + 1) bs.length t').getBlockByIndex n).bind Block.blockHash)
    refine ⟨?_, (hpass.grows.trans hgrows).trans hdelete⟩
    show (Tables.deleteBlockByIndex _ _ _).toChainRows = _
    rw [Tables.toChainRows_deleteBlockByIndex]
    exact (congrArg (ChainRows.deleteBlock · n) hrows).trans hundone

/-- **Main theorem.** A decoder in any state a run can reach stores a branch and takes
    it back without a trace in its chain rows, and forgets no number it gave out. -/
theorem Reachable.rollBack_ingestChain {cfg : Config} {w : World cfg.weight} (h : Reachable cfg w)
    {bs : List ChainBlock} {n lastTxIndex : Int} {t : Tables cfg.weight}
    (hbs : ingestChain rules bs n lastTxIndex w.db = some t) :
    (rollBack n bs.length t).toChainRows = w.db.toChainRows ∧
      Tables.Grows w.db (rollBack n bs.length t) := by
  obtain ⟨hsafe, -⟩ := h.safe
  exact undone_ingestChain bs hsafe.wf hbs

/-! ## Section 3: Convergence -/

/-- What a branch stores is told by what the tables it is put on say. -/
theorem says_ingestChain (hS : Tables.Apart weight S) (bs : List ChainBlock) :
    ∀ {t u : Tables weight} (n lastTxIndex : Int), Tables.Sound S t → Tables.Sound S u →
    u.named = t.named → (∀ b ∈ bs, b.Within S rules) →
    Option.Rel (fun t' u' => Tables.Sound S t' ∧ Tables.Sound S u' ∧ u'.named = t'.named)
      (ingestChain rules bs n lastTxIndex t) (ingestChain rules bs n lastTxIndex u) := by
  induction bs with
  | nil => exact fun _ _ ht hu heq _ => .some ⟨ht, hu, heq⟩
  | cons b bs ih =>
    intro t u n lastTxIndex ht hu heq hbs
    have hb := hbs b List.mem_cons_self
    have hpass := Draft.says_ingestBlock hS ht b.quarantined b.hash hb lastTxIndex (n := n)
    have hpass' := Draft.says_ingestBlock hS hu b.quarantined b.hash hb lastTxIndex (n := n)
    rw [heq] at hpass'
    -- both passes go in step with one pass of the store without numbers
    have hboth : Option.Rel (fun d d' => ∃ e, Draft.Says S d e ∧ Draft.Says S d' e)
        (Draft.ingestBlock rules b.quarantined n b.hash b.block t lastTxIndex)
        (Draft.ingestBlock rules b.quarantined n b.hash b.block u lastTxIndex) := by
      generalize NamedDraft.ingestBlock rules b.quarantined n b.hash b.block t.named
        lastTxIndex = e at hpass hpass'
      generalize Draft.ingestBlock rules b.quarantined n b.hash b.block t lastTxIndex = x at hpass
      generalize Draft.ingestBlock rules b.quarantined n b.hash b.block u lastTxIndex = y at hpass'
      cases hpass with
      | none => cases hpass'; exact .none
      | some hx => cases hpass' with | some hy => exact .some ⟨_, hx, hy⟩
    apply InStep.bind hboth
    intro d d' hd
    obtain ⟨e, hd, hd'⟩ := hd
    rw [hd.lastTxIndex, hd'.lastTxIndex]
    apply ih _ _ hd.tables.sound hd'.tables.sound
    · exact hd'.tables.named.trans hd.tables.named.symm
    · exact fun b' hb' => hbs b' (List.mem_cons_of_mem b hb')

theorem sound_rollBack (n : Int) (k : Nat) {t : Tables weight} (h : Tables.Sound S t) :
    Tables.Sound S (rollBack n k t) := by
  induction k generalizing n with
  | zero => exact h
  | succ k ih => exact (Tables.says_deleteBlockByIndex (ih (n + 1)).told n _).sound

theorem wf_fresh : (Tables.fresh weight).toChainRows.Wf := by
  refine ⟨List.nodup_nil, List.nodup_nil, ?_, ?_, ?_, List.nodup_nil, ?_, ?_, ?_⟩ <;>
    exact fun x hx => absurd hx List.not_mem_nil

theorem wf_act {a : ChainAction} {t t' : Tables weight} (hwf : t.toChainRows.Wf)
    (h : t.act rules a = some t') : t'.toChainRows.Wf := by
  cases a with
  | ingest quarantined blockIndex hash block lastTxIndex =>
    obtain ⟨d, hd, rfl⟩ := Option.map_eq_some_iff.mp h
    exact ((commits_ingestBlock hd).pass.wf_and_deleteBlock hwf).1
  | delete blockIndex reorgBlockHash =>
    rw [← Option.some.inj h, Tables.toChainRows_deleteBlockByIndex]
    exact hwf.deleteBlock
  | purge safeHeight graceFloor =>
    rw [← Option.some.inj h]
    exact hwf.purge safeHeight graceFloor

theorem wf_run {as : List ChainAction} {t t' : Tables weight} (hwf : t.toChainRows.Wf)
    (h : Runs.run (Tables.act rules) as t = some t') : t'.toChainRows.Wf := by
  induction as generalizing t with
  | nil => exact Option.some.inj h ▸ hwf
  | cons a as ih =>
    obtain ⟨t₁, ht₁, hrest⟩ := Option.bind_eq_some_iff.mp h
    exact ih (wf_act hwf ht₁) hrest

theorem sound_of_some {x : Option (Tables weight)} {y : Option Named} {t : Tables weight}
    (h : Option.Rel (Tables.Says S) x y) (hx : x = some t) : Tables.Sound S t := by
  subst hx
  cases h with
  | some h => exact h.sound

theorem sound_ingestChain (hS : Tables.Apart weight S) {bs : List ChainBlock} {t t' : Tables weight}
    {n lastTxIndex : Int} (h : Tables.Sound S t) (hbs : ∀ b ∈ bs, b.Within S rules)
    (ht' : ingestChain rules bs n lastTxIndex t = some t') : Tables.Sound S t' := by
  have hstep := says_ingestChain hS bs n lastTxIndex h h rfl hbs
  rw [ht'] at hstep
  cases hstep with
  | some h => exact h.1

/-- **Main theorem.** After a reorg the replacement branch is stored as if the orphaned
    one had never been seen, whatever was ingested, deleted and purged before. -/
theorem reorg_converges (hS : Tables.Apart weight S) (hblank : S "") {history : List ChainAction}
    (hhistory : ∀ a ∈ history, a.Within S rules) {t t' : Tables weight}
    (ht : Runs.run (Tables.act rules) history (Tables.fresh weight) = some t)
    {orphaned replacement : List ChainBlock} (horphaned : ∀ b ∈ orphaned, b.Within S rules)
    (hreplacement : ∀ b ∈ replacement, b.Within S rules) {n lastTxIndex : Int}
    (ht' : ingestChain rules orphaned n lastTxIndex t = some t') :
    (ingestChain rules replacement n (rollBack n orphaned.length t').getLastTxIndex
        (rollBack n orphaned.length t')).map Tables.named =
      (ingestChain rules replacement n t.getLastTxIndex t).map Tables.named := by
  have hsound : Tables.Sound S t :=
    sound_of_some (says_run hS history (Tables.sound_fresh hblank).told hhistory) ht
  -- the rows are back, only the lookup tables have grown: both say the same
  have hsound' := sound_rollBack n orphaned.length (sound_ingestChain hS hsound horphaned ht')
  obtain ⟨hrows, hgrows⟩ := undone_ingestChain orphaned (wf_run wf_fresh ht) ht'
  have hnamed := Tables.named_of_lookups hsound.known hgrows hrows
  -- the counter is read off the rows
  have hindex : (rollBack n orphaned.length t').getLastTxIndex = t.getLastTxIndex :=
    congrArg ChainRows.getLastTxIndex hrows
  rw [hindex]
  have hstep := says_ingestChain hS replacement n t.getLastTxIndex hsound' hsound hnamed.symm
    hreplacement
  exact InStep.map_eq_map hstep (fun _ _ h => h.2.2.symm)

/-! ## Section 4: Two branches

    The orphaned branch names an address the replacement does not, so the replacement
    finds the lookup tables longer than a decoder that never saw the orphaned branch. -/

namespace Sample

/-- A collation that ignores case. -/
def ignoreCase (v : String) : String := String.ofList (v.toList.map Char.toLower)

/-- The addresses on the two branches. -/
def named (v : String) : Prop := v ∈ ["", "alice", "bob", "till"]

instance (v : String) : Decidable (named v) := inferInstanceAs (Decidable (v ∈ _))

/-- Whoever signs opens a dispenser at the same till. -/
def tillRules : Rules :=
  { Sample.rules false with
    parseTransaction := fun tx _ _ =>
      .result ⟨tx.bytes, tx.bytes.length, none,
        some (if tx.bytes = [1] then "alice" else "bob"), none, none, [], [], 0⟩
    canonicalAction  := fun _ => ("CREATE", true)
    dispenserCreates := fun _ source _ => [⟨some "till", source, none, 5000⟩]
    dispenserEdit    := fun _ _ _ => none }

def branch (byte : UInt8) (hash : Hash) : ChainBlock where
  hash        := hash
  block       := ⟨hashC, 1000, [⟨some hash, [byte]⟩]⟩
  quarantined := fun _ => false

theorem apart_named : Tables.Apart ignoreCase named := by
  have hall : ∀ v ∈ ["", "alice", "bob", "till"], ∀ w ∈ ["", "alice", "bob", "till"],
      ignoreCase v = ignoreCase w → v = w := by
    decide +kernel
  exact fun v w hv hw => hall v hv w hw

theorem branch_within (byte : UInt8) (hash : Hash) : (branch byte hash).Within named tillRules := by
  have hsigner : named (if byte = 1 then "alice" else "bob") := by
    split <;> decide
  intro tx htx isOpen blockIndex r hr
  rw [List.mem_singleton.mp htx] at hr
  obtain rfl := Parsed.result.inj hr.symm
  have hsource : ∀ v ∈ some (if [byte] = [1] then "alice" else "bob"), named v := by
    intro v hv
    rw [← Option.some.inj hv]
    simpa using hsigner
  refine ⟨hsource, ?_, ?_, ?_, ?_⟩
  · intro v hv
    cases hv
  · intro o ho
    cases ho
  · intro time c hc
    rw [List.mem_singleton.mp hc]
    refine ⟨?_, ?_, hsource⟩
    · intro v hv
      rw [← Option.some.inj hv]
      decide
    · intro v hv
      cases hv
  · intro time e he
    cases he

def history : List ChainAction := [.ingest (fun _ => false) 0 hashC ⟨hashC, 500, []⟩ (-1)]

/-- The tables after the genesis block. -/
def base : Tables ignoreCase :=
  (Runs.run (Tables.act tillRules) history (Tables.fresh ignoreCase)).get (by decide +kernel)

theorem run_history : Runs.run (Tables.act tillRules) history (Tables.fresh ignoreCase) = some base :=
  (Option.some_get _).symm

/-- The tables with the orphaned branch on them. -/
def forked : Tables ignoreCase :=
  (ingestChain tillRules [branch 1 hashA] 1 (-1) base).get (by decide +kernel)

theorem ingestChain_forked : ingestChain tillRules [branch 1 hashA] 1 (-1) base = some forked :=
  (Option.some_get _).symm

theorem history_within : ∀ a ∈ history, a.Within named tillRules := by
  intro a ha
  rw [List.mem_singleton.mp ha]
  intro tx htx
  cases htx

/-- The numbers do differ: alice of the orphaned branch keeps hers. -/
example : (rollBack 1 1 forked).createAddress (some "bob") ≠ base.createAddress (some "bob") := by
  decide +kernel

/-- Both branches, one after the other, and a purge. -/
def bothBranches : List ChainAction := history ++
  [.ingest (fun _ => false) 1 hashA (branch 1 hashA).block (-1), .delete 1 none,
    .ingest (fun _ => false) 1 hashB (branch 2 hashB).block (-1), .purge 1 none]

theorem bothBranches_within : ∀ a ∈ bothBranches, a.Within named tillRules := by
  unfold bothBranches
  simp only [List.forall_mem_append, List.forall_mem_cons]
  refine ⟨history_within, branch_within 1 hashA, trivial, branch_within 2 hashB, trivial, ?_⟩
  intro a ha
  cases ha

theorem named_run_bothBranches :
    (Runs.run (Tables.act tillRules) bothBranches (Tables.fresh ignoreCase)).map Tables.named =
      Runs.run (Named.act tillRules) bothBranches Named.empty :=
  named_run apart_named (by decide) bothBranches_within

theorem reorg_converges_forked :
    (ingestChain tillRules [branch 2 hashB] 1 (rollBack 1 1 forked).getLastTxIndex
        (rollBack 1 1 forked)).map Tables.named =
      (ingestChain tillRules [branch 2 hashB] 1 base.getLastTxIndex base).map Tables.named := by
  apply reorg_converges apart_named (by decide) history_within run_history
    _ _ ingestChain_forked
  · exact fun b hb => List.mem_singleton.mp hb ▸ branch_within 1 hashA
  · exact fun b hb => List.mem_singleton.mp hb ▸ branch_within 2 hashB

/-- The two stored blocks with a branch on them. -/
def extended : Tables id :=
  (ingestChain tillRules [branch 1 hashC] 2 (-1) stored.db).get (by decide +kernel)

theorem rollBack_extended :
    (rollBack 2 1 extended).toChainRows = stored.db.toChainRows ∧
      Tables.Grows stored.db (rollBack 2 1 extended) := by
  have hextended : ingestChain tillRules [branch 1 hashC] 2 (-1) stored.db = some extended :=
    (Option.some_get _).symm
  exact reachable_stored.rollBack_ingestChain hextended

end Sample

end XChainDecoder
