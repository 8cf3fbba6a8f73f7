import XChainDecoder.Lib.InStep
import XChainDecoder.Ingest.Collapse
import XChainDecoder.Ingest.Interning
import XChainDecoder.Ingest.Lifetime
import XChainDecoder.Ingest.Named

/-! # The pass reads no number

    The tables of the decoder, read through their lookup tables, go through a pass
    exactly as the store without numbers does. So which numbers the lookup tables have
    given out, and to whom, is never visible in what a pass stores.

    `Sound S` is what the argument needs of the tables: every number in a row has been
    given out, and the spellings given one are among a set `S` that the collation tells
    apart. `Says S t s` adds that `t` reads as `s`; each statement keeps it.

    **Main theorem.** `Draft.says_ingestBlock`. -/

namespace XChainDecoder

namespace Tables

variable {weight : String → String} {t t' : Tables weight} {S : String → Prop} {s : Named}

/-! ## Section 1: Numbers that have been given out -/

def KnownAddress (t : Tables weight) (id : Nat) : Prop := (t.indexAddresses.valueOf id).isSome

def KnownHash (t : Tables weight) (id : Nat) : Prop := (t.indexTransactions.valueOf id).isSome

def KnownDispenser (t : Tables weight) (d : DispenserRow) : Prop :=
  t.KnownAddress d.addressId ∧ (∀ id ∈ d.oracleAddressId, t.KnownAddress id) ∧
    ∀ id ∈ d.sourceAddressId, t.KnownAddress id

/-- Every number in a row has been given out. -/
structure Known (t : Tables weight) : Prop where
  blocks       : ∀ b ∈ t.blocks, t.KnownHash b.blockHashId ∧ t.KnownHash b.previousBlockHashId
  transactions : ∀ x ∈ t.transactions,
    t.KnownHash x.txHashId ∧ t.KnownAddress x.sourceId ∧ t.KnownAddress x.destinationId
  outputs      : ∀ o ∈ t.transactionOutputs, t.KnownAddress o.destinationId
  dispensers   : ∀ d ∈ t.dispensers, t.KnownDispenser d
  undo         : ∀ u ∈ t.dispenserExtensionUndo, t.KnownAddress u.addressId

theorem KnownAddress.grows {id : Nat} (h : t.KnownAddress id) (hgrows : Grows t t') :
    t'.KnownAddress id := by
  obtain ⟨a, ha⟩ := Option.isSome_iff_exists.mp h
  exact Option.isSome_iff_exists.mpr ⟨a, Index.valueOf_of_prefix hgrows.addresses ha⟩

theorem KnownHash.grows {id : Nat} (h : t.KnownHash id) (hgrows : Grows t t') : t'.KnownHash id := by
  obtain ⟨a, ha⟩ := Option.isSome_iff_exists.mp h
  exact Option.isSome_iff_exists.mpr ⟨a, Index.valueOf_of_prefix hgrows.transactions ha⟩

theorem KnownDispenser.grows {d : DispenserRow} (h : t.KnownDispenser d) (hgrows : Grows t t') :
    t'.KnownDispenser d :=
  ⟨h.1.grows hgrows, fun id hid => (h.2.1 id hid).grows hgrows,
    fun id hid => (h.2.2 id hid).grows hgrows⟩

/-- A number that was given out keeps its meaning. -/
theorem addressOf_grows {id : Nat} (h : t.KnownAddress id) (hgrows : Grows t t') :
    t'.addressOf id = t.addressOf id := by
  obtain ⟨a, ha⟩ := Option.isSome_iff_exists.mp h
  unfold addressOf
  rw [ha, Index.valueOf_of_prefix hgrows.addresses ha]

theorem hash_grows {id : Nat} (h : t.KnownHash id) (hgrows : Grows t t') :
    t'.indexTransactions.valueOf id = t.indexTransactions.valueOf id := by
  obtain ⟨a, ha⟩ := Option.isSome_iff_exists.mp h
  rw [ha, Index.valueOf_of_prefix hgrows.transactions ha]

/-- Interning does not change what the rows say. -/
theorem Known.of_lookups (h : Known t) (hgrows : Grows t t')
    (hrows : t'.toChainRows = t.toChainRows) : Known t' := by
  obtain ⟨c, a, i, p, e⟩ := t'
  have hrows : c = t.toChainRows := hrows
  subst hrows
  constructor
  · exact fun b hb => ⟨(h.blocks b hb).1.grows hgrows, (h.blocks b hb).2.grows hgrows⟩
  · exact fun x hx => ⟨(h.transactions x hx).1.grows hgrows, (h.transactions x hx).2.1.grows hgrows,
      (h.transactions x hx).2.2.grows hgrows⟩
  · exact fun o ho => (h.outputs o ho).grows hgrows
  · exact fun d hd => (h.dispensers d hd).grows hgrows
  · exact fun u hu => (h.undo u hu).grows hgrows

theorem namedDispenser_grows {d : DispenserRow} (h : t.KnownDispenser d) (hgrows : Grows t t') :
    t'.namedDispenser d = t.namedDispenser d := by
  unfold namedDispenser
  rw [addressOf_grows h.1 hgrows, Option.map_congr (fun id hid => addressOf_grows (h.2.1 id hid) hgrows),
    Option.map_congr (fun id hid => addressOf_grows (h.2.2 id hid) hgrows)]

theorem named_of_lookups (h : Known t) (hgrows : Grows t t')
    (hrows : t'.toChainRows = t.toChainRows) : t'.named = t.named := by
  obtain ⟨c, a, i, p, e⟩ := t'
  have hrows : c = t.toChainRows := hrows
  subst hrows
  apply Named.ext
  · apply List.map_congr_left
    intro b hb
    show toBlock _ _ = toBlock _ _
    unfold toBlock
    rw [hash_grows (h.blocks b hb).1 hgrows, hash_grows (h.blocks b hb).2 hgrows]
  · apply List.map_congr_left
    intro x hx
    unfold namedTransaction
    rw [hash_grows (h.transactions x hx).1 hgrows, addressOf_grows (h.transactions x hx).2.1 hgrows,
      addressOf_grows (h.transactions x hx).2.2 hgrows]
  · apply List.map_congr_left
    intro o ho
    unfold namedOutput
    rw [addressOf_grows (h.outputs o ho) hgrows]
  · exact List.map_congr_left (fun d hd => namedDispenser_grows (h.dispensers d hd) hgrows)
  · apply List.map_congr_left
    intro u hu
    unfold namedUndo
    rw [addressOf_grows (h.undo u hu) hgrows]

/-! ## Section 2: Tables that say something -/

/-- Every number has been given out, to spellings the collation tells apart. -/
structure Sound (S : String → Prop) (t : Tables weight) : Prop where
  within : Within S t
  known  : Known t

/-- The tables are sound, and `s` is what they say. -/
structure Says (S : String → Prop) (t : Tables weight) (s : Named) : Prop where
  sound : Sound S t
  named : t.named = s

theorem Sound.told (h : Sound S t) : Says S t t.named := ⟨h, rfl⟩

theorem sound_fresh (hblank : S "") : Sound S (fresh weight) where
  within := within_fresh hblank
  known  := by
    constructor
    · exact fun b hb => absurd hb (List.not_mem_nil)
    · exact fun x hx => absurd hx (List.not_mem_nil)
    · exact fun o ho => absurd ho (List.not_mem_nil)
    · exact fun d hd => absurd hd (List.not_mem_nil)
    · exact fun u hu => absurd hu (List.not_mem_nil)

/-- Interning says nothing new. -/
theorem Says.of_lookups (h : Says S t s) (hgrows : Grows t t')
    (hrows : t'.toChainRows = t.toChainRows) (hwithin : Within S t') : Says S t' s :=
  ⟨⟨hwithin, h.sound.known.of_lookups hgrows hrows⟩,
    (named_of_lookups h.sound.known hgrows hrows).trans h.named⟩

theorem Reads.known {id : Nat} {a : Option String} (h : t.Reads id a) : t.KnownAddress id :=
  Option.isSome_iff_exists.mpr ⟨_, h⟩

theorem Reads.addressOf {id : Nat} {a : Option String} (h : t.Reads id a) :
    t.addressOf id = a.getD "" := by
  unfold Tables.addressOf
  rw [h]
  rfl

theorem known_of_eq {id : Nat} (h : t.KnownAddress id) :
    t.indexAddresses.valueOf id = some (t.addressOf id) := by
  obtain ⟨a, ha⟩ := Option.isSome_iff_exists.mp h
  unfold addressOf
  rw [ha]
  rfl

/-- Two numbers are one exactly where they read the same. -/
theorem addressOf_inj {i j : Nat} (hi : t.KnownAddress i) (hj : t.KnownAddress j) :
    t.addressOf i = t.addressOf j ↔ i = j := by
  constructor
  -- no spelling is in the table twice
  · intro heq
    exact Index.valueOf_inj (known_of_eq hi) (heq ▸ known_of_eq hj)
  · exact fun heq => heq ▸ rfl

/-- A number is found under a spelling exactly where it reads as that spelling. -/
theorem idOf_iff (hS : Apart weight S) (h : Within S t) {a : String} (ha : S a) {i : Nat}
    (hi : t.KnownAddress i) : t.indexAddresses.idOf a = some i ↔ t.addressOf i = a := by
  constructor
  · intro hid
    obtain ⟨v, hv, hkey⟩ := Index.idOf_eq_some hid
    -- what is found has the key of `a`, and in `S` a key has one spelling
    have hva : v = a := hS v a (h.values v (Index.holds_iff.mpr ⟨i, hv⟩)) ha hkey
    have heq := known_of_eq hi
    rw [hv, Option.some.injEq] at heq
    rw [← heq, hva]
  · intro heq
    have hread := known_of_eq hi
    rw [heq] at hread
    exact Index.idOf_of_mem (Index.valueOf_eq_some_iff.mp hread)

theorem Says.createAddress (hS : Apart weight S) (h : Says S t s) {a : Option String}
    (ha : ∀ v ∈ a, S v) : Says S (t.createAddress a).2 s ∧
      (t.createAddress a).2.Reads (t.createAddress a).1 a :=
  ⟨h.of_lookups (createAddress_grows t a) (createAddress_toChainRows t a)
    (h.sound.within.createAddress ha), reads_createAddress hS h.sound.within ha⟩

theorem Says.createOptionalAddress (hS : Apart weight S) (h : Says S t s) {a : Option String}
    (ha : ∀ v ∈ a, S v) : Says S (t.createOptionalAddress a).2 s ∧
      (∀ id ∈ (t.createOptionalAddress a).1, (t.createOptionalAddress a).2.KnownAddress id) ∧
      (t.createOptionalAddress a).1.map (t.createOptionalAddress a).2.addressOf = Named.present a := by
  refine ⟨h.of_lookups (createOptionalAddress_grows t a) (createOptionalAddress_toChainRows t a)
    (h.sound.within.createOptionalAddress ha), ?_, ?_⟩
  · exact fun id hid => (reads_createOptionalAddress hS h.sound.within ha id hid).known
  · have hreads := reads_createOptionalAddress hS h.sound.within ha
    revert hreads
    rw [createOptionalAddress_eq]
    unfold Named.present
    by_cases hblank : a.getD "" = ""
    · simp only [if_pos hblank]
      exact fun _ => rfl
    · simp only [if_neg hblank]
      intro hreads
      have hread := (hreads _ rfl).addressOf
      cases a with
      | none   => exact absurd rfl hblank
      | some a => exact congrArg some hread

/-- What `createTransaction` answers reads back as the hash. -/
theorem Says.createTransaction (h : Says S t s) (hash : Hash) :
    Says S (t.createTransaction hash).2 s ∧
      (t.createTransaction hash).2.indexTransactions.valueOf (t.createTransaction hash).1 =
        some hash :=
  ⟨h.of_lookups (createTransaction_grows t hash) (createTransaction_toChainRows t hash)
    (h.sound.within.congr rfl), Index.valueOf_create_of_injective Function.injective_id _ _ _⟩

theorem recordSourcePubkey_indexAddresses (t : Tables weight) (id : Nat) (pubkey : Option String) :
    (t.recordSourcePubkey id pubkey).indexAddresses = t.indexAddresses := by
  cases pubkey with
  | none => rfl
  | some pubkey =>
    by_cases h : pubkey = "" ∨ id = 1
    · simp [recordSourcePubkey, h]
    · simp only [recordSourcePubkey, if_neg h, insertPubkey]
      split <;> rfl

/-! ## Section 3: Statements -/

theorem heights_named (t : Tables weight) : t.named.heights = t.heights := by
  simp only [Named.heights, named, ChainRows.heights, List.map_map]
  rfl

theorem txIndexes_named (t : Tables weight) : t.named.txIndexes = t.txIndexes := by
  simp only [Named.txIndexes, named, ChainRows.txIndexes, List.map_map]
  rfl

/-! A row added on top of sound tables, with its numbers given out. -/

theorem Says.addBlock (h : Says S t s) {bs : List BlockRow} {b : BlockRow} {block : Block}
    (hbs : bs = t.blocks ++ [b]) (hhash : t.KnownHash b.blockHashId)
    (hprevious : t.KnownHash b.previousBlockHashId) (hb : toBlock t.indexTransactions b = block) :
    Says S { t with blocks := bs } { s with blocks := s.blocks ++ [block] } := by
  refine ⟨⟨h.sound.within.congr rfl, { h.sound.known with blocks := ?_ }⟩, ?_⟩
  · rw [hbs]
    exact List.forall_mem_append.mpr
      ⟨h.sound.known.blocks, List.forall_mem_singleton.mpr ⟨hhash, hprevious⟩⟩
  · rw [← h.named, ← hb, hbs]
    simp only [Tables.named, List.map_append]
    rfl

theorem Says.addTransaction (h : Says S t s) {xs : List TransactionRow} {x : TransactionRow}
    {y : NamedTransaction} (hxs : xs = t.transactions ++ [x]) (hhash : t.KnownHash x.txHashId)
    (hsource : t.KnownAddress x.sourceId) (hdestination : t.KnownAddress x.destinationId)
    (hy : t.namedTransaction x = y) :
    Says S { t with transactions := xs } { s with transactions := s.transactions ++ [y] } := by
  refine ⟨⟨h.sound.within.congr rfl, { h.sound.known with transactions := ?_ }⟩, ?_⟩
  · rw [hxs]
    exact List.forall_mem_append.mpr
      ⟨h.sound.known.transactions, List.forall_mem_singleton.mpr ⟨hhash, hsource, hdestination⟩⟩
  · rw [← h.named, ← hy, hxs]
    simp only [Tables.named, List.map_append]
    rfl

theorem Says.addOutput (h : Says S t s) {os : List TransactionOutputRow}
    {o : TransactionOutputRow} {y : NamedOutput} (hos : os = t.transactionOutputs ++ [o])
    (hdestination : t.KnownAddress o.destinationId) (hy : t.namedOutput o = y) :
    Says S { t with transactionOutputs := os }
      { s with transactionOutputs := s.transactionOutputs ++ [y] } := by
  refine ⟨⟨h.sound.within.congr rfl, { h.sound.known with outputs := ?_ }⟩, ?_⟩
  · rw [hos]
    exact List.forall_mem_append.mpr
      ⟨h.sound.known.outputs, List.forall_mem_singleton.mpr hdestination⟩
  · rw [← h.named, ← hy, hos]
    simp only [Tables.named, List.map_append]
    rfl

theorem Says.addDispenser (h : Says S t s) {ds : List DispenserRow} {d : DispenserRow}
    {y : NamedDispenser} (hds : ds = t.dispensers ++ [d]) (hd : t.KnownDispenser d)
    (hy : t.namedDispenser d = y) :
    Says S { t with dispensers := ds } { s with dispensers := s.dispensers ++ [y] } := by
  refine ⟨⟨h.sound.within.congr rfl, { h.sound.known with dispensers := ?_ }⟩, ?_⟩
  · rw [hds]
    exact List.forall_mem_append.mpr
      ⟨h.sound.known.dispensers, List.forall_mem_singleton.mpr hd⟩
  · rw [← h.named, ← hy, hds]
    simp only [Tables.named, List.map_append]
    rfl

theorem says_insertBlock (h : Says S t s) (n time : Int) (hash previous : Hash) :
    Option.Rel (Says S) (t.insertBlock n time hash previous) (s.insertBlock n time hash previous) := by
  obtain ⟨h₁, hread₁⟩ := h.createTransaction hash
  obtain ⟨h₂, hread₂⟩ := h₁.createTransaction previous
  -- the first hash reads the same once the second one is added
  have hgrows := createTransaction_grows (t.createTransaction hash).2 previous
  have hread₁' := Index.valueOf_of_prefix hgrows.transactions hread₁
  unfold insertBlock Named.insertBlock
  apply InStep.ite
  · rw [← h.named, heights_named]
  · exact fun _ => .none
  · intro _
    apply Option.Rel.some
    apply h₂.addBlock (b := ⟨n, time, (t.createTransaction hash).1,
      ((t.createTransaction hash).2.createTransaction previous).1⟩) rfl
    · exact Option.isSome_iff_exists.mpr ⟨_, hread₁'⟩
    · exact Option.isSome_iff_exists.mpr ⟨_, hread₂⟩
    · simp only [toBlock, hread₁', hread₂]

theorem says_insertTransaction (hS : Apart weight S) (h : Says S t s) (tx : NewTransaction)
    (hsource : ∀ v ∈ tx.source, S v) (hdestination : ∀ v ∈ tx.destination, S v) :
    Option.Rel (Says S) (t.insertTransaction tx) (s.insertTransaction tx) := by
  obtain ⟨h₁, hhash⟩ := h.createTransaction tx.hash
  obtain ⟨h₂, hs⟩ := h₁.createAddress hS hsource
  obtain ⟨h₃, hd⟩ := h₂.createAddress hS hdestination
  let p := (((t.createTransaction tx.hash).2.createAddress tx.source).2.createAddress
    tx.destination).2.recordSourcePubkey
      ((t.createTransaction tx.hash).2.createAddress tx.source).1 tx.sourcePubkey
  have hpubkey : Grows _ p := recordSourcePubkey_grows _ _ _
  have hrows : p.toChainRows = t.toChainRows := by simp [p]
  have h₄ : Says S p s := h₃.of_lookups hpubkey (recordSourcePubkey_toChainRows _ _ _)
    (h₃.sound.within.congr (recordSourcePubkey_indexAddresses _ _ _))
  -- all three numbers read back in the tables the row is added to
  have hgrows₃ := (createAddress_grows _ tx.destination).trans hpubkey
  have hgrows₂ := (createAddress_grows _ tx.source).trans hgrows₃
  have hhash' := Index.valueOf_of_prefix hgrows₂.transactions hhash
  have hs' := hs.grows hgrows₃
  have hd' := hd.grows hpubkey
  unfold insertTransaction Named.insertTransaction
  apply InStep.ite
  · -- the hash of a stored transaction is known, and a known hash has one number
    rw [← h₄.named, txIndexes_named, hrows]
    apply or_congr Iff.rfl
    have htxs : p.transactions = t.transactions := congrArg ChainRows.transactions hrows
    simp only [Tables.named, List.map_map, List.mem_map, ← htxs]
    constructor
    · rintro ⟨x, hx, hid⟩
      refine ⟨x, hx, ?_⟩
      show p.indexTransactions.valueOf x.txHashId = _
      rw [hid, hhash']
    · rintro ⟨x, hx, hid⟩
      exact ⟨x, hx, Index.valueOf_inj hid hhash'⟩
  · exact fun _ => .none
  · intro _
    apply Option.Rel.some
    apply h₄.addTransaction (x := ⟨tx.index, (t.createTransaction tx.hash).1, tx.blockIndex,
      ((t.createTransaction tx.hash).2.createAddress tx.source).1,
      (((t.createTransaction tx.hash).2.createAddress tx.source).2.createAddress tx.destination).1,
      tx.data, tx.rawData⟩)
    · exact congrArg (fun c => ChainRows.transactions c ++ _) hrows.symm
    · exact Option.isSome_iff_exists.mpr ⟨_, hhash'⟩
    · exact hs'.known
    · exact hd'.known
    · simp only [namedTransaction, hhash', hs'.addressOf, hd'.addressOf]

theorem says_insertOutput (hS : Apart weight S) (h : Says S t s) (txIndex : Int) {o : Output}
    (ho : ∀ v ∈ o.destinationAddress, S v) :
    Option.Rel (Says S) (t.insertOutput txIndex o) (s.insertOutput txIndex o) := by
  obtain ⟨h₁, hd⟩ := h.createAddress hS ho
  have hrows := createAddress_toChainRows t o.destinationAddress
  unfold insertOutput insertTransactionOutput Named.insertOutput
  apply InStep.ite
  · rw [← h.named]
    simp [Tables.named, namedOutput]
  · exact fun _ => .none
  · intro _
    apply Option.Rel.some
    apply h₁.addOutput (o := ⟨txIndex, o.vout, (t.createAddress o.destinationAddress).1, o.amount⟩)
    · exact congrArg (fun c => ChainRows.transactionOutputs c ++ _) hrows.symm
    · exact hd.known
    · simp only [namedOutput, hd.addressOf]

theorem says_insertOutputs (hS : Apart weight S) (txIndex : Int) (os : List Output) :
    ∀ {t : Tables weight} {s : Named}, Says S t s → (∀ o ∈ os, ∀ v ∈ o.destinationAddress, S v) →
    Option.Rel (Says S) (insertOutputs txIndex os t) (Named.insertOutputs txIndex os s) := by
  induction os with
  | nil => exact fun h _ => .some h
  | cons o os ih =>
    intro t s h hos
    apply InStep.bind (says_insertOutput hS h txIndex (hos o List.mem_cons_self))
    intro t' s' h'
    exact ih h' (fun o' ho' => hos o' (List.mem_cons_of_mem o ho'))

theorem says_registerDispenser (hS : Apart weight S) (h : Says S t s) (txIndex : Int)
    {c : DispenserCreate} (ha : ∀ v ∈ c.address, S v) (ho : ∀ v ∈ c.oracleAddress, S v)
    (hs : ∀ v ∈ c.sourceAddress, S v) :
    Says S (t.registerDispenser txIndex c) (s.registerDispenser txIndex c) := by
  have hsource : ∀ v ∈ (if c.sourceAddress = c.address then none else c.sourceAddress), S v := by
    split
    · exact fun v hv => absurd hv (Option.not_mem_none v)
    · exact hs
  obtain ⟨h₁, haddress⟩ := h.createAddress hS ha
  obtain ⟨h₂, hknown₂, horacle⟩ := h₁.createOptionalAddress hS ho
  obtain ⟨h₃, hknown₃, hsource'⟩ := h₂.createOptionalAddress hS hsource
  have hgrows₃ := createOptionalAddress_grows (((t.createAddress c.address).2.createOptionalAddress
    c.oracleAddress).2) (if c.sourceAddress = c.address then none else c.sourceAddress)
  have hgrows₂ := (createOptionalAddress_grows (t.createAddress c.address).2 c.oracleAddress).trans
    hgrows₃
  have haddress' := haddress.grows hgrows₂
  unfold registerDispenser insertDispenser Named.registerDispenser
  dsimp only
  -- the insert is ignored where the key is taken, and the key says the same on both sides
  have htaken : (txIndex, (t.createAddress c.address).1) ∈
        t.dispensers.map (fun d => (d.txIndex, d.addressId)) ↔
      (txIndex, c.address.getD "") ∈ s.dispensers.map (fun d => (d.txIndex, d.address)) := by
    rw [← h₁.named]
    simp only [Tables.named, List.map_map, List.mem_map, createAddress_toChainRows]
    apply exists_congr
    intro d
    apply and_congr_right
    intro hd
    have hknown := (h₁.sound.known.dispensers d (by simpa using hd)).1
    simp only [Function.comp, namedDispenser, Prod.mk.injEq, ← haddress.addressOf]
    rw [addressOf_inj hknown haddress.known]
  by_cases hmem : (txIndex, (t.createAddress c.address).1) ∈
      t.dispensers.map (fun d => (d.txIndex, d.addressId))
  · rw [if_pos hmem, if_pos (htaken.mp hmem)]
    exact h₃
  · rw [if_neg hmem, if_neg (fun hin => hmem (htaken.mpr hin))]
    apply h₃.addDispenser (d := ⟨txIndex, (t.createAddress c.address).1, c.expiration,
      ((t.createAddress c.address).2.createOptionalAddress c.oracleAddress).1,
      (((t.createAddress c.address).2.createOptionalAddress c.oracleAddress).2.createOptionalAddress
        (if c.sourceAddress = c.address then none else c.sourceAddress)).1, none⟩)
    · simp
    · exact ⟨haddress'.known, fun id hid => (hknown₂ id hid).grows hgrows₃, hknown₃⟩
    · simp only [namedDispenser, haddress'.addressOf, hsource']
      rw [← horacle]
      rw [Option.map_congr (fun id hid => addressOf_grows (hknown₂ id hid) hgrows₃)]

/-- What an update of a row that leaves its numbers alone does. -/
theorem Says.mapDispensers (h : Says S t s) {f : DispenserRow → DispenserRow}
    {g : NamedDispenser → NamedDispenser} (hf : ∀ d ∈ t.dispensers, t.KnownDispenser (f d))
    (hfg : ∀ d ∈ t.dispensers, t.namedDispenser (f d) = g (t.namedDispenser d)) :
    Says S { t with dispensers := t.dispensers.map f } { s with dispensers := s.dispensers.map g } := by
  refine ⟨⟨h.sound.within.congr rfl, { h.sound.known with dispensers := ?_ }⟩, ?_⟩
  · intro d' hd'
    obtain ⟨d, hd, rfl⟩ := List.mem_map.mp hd'
    exact hf d hd
  · have hrows : (t.dispensers.map f).map t.namedDispenser = t.named.dispensers.map g := by
      rw [List.map_map, Tables.named, List.map_map]
      exact List.map_congr_left (fun d hd => hfg d hd)
    rw [← h.named, ← hrows]
    rfl

theorem says_deleteOpenDispensers (h : Says S t s) (n minExpiration : Int) :
    Says S (t.deleteOpenDispensers n minExpiration) (s.deleteOpenDispensers n minExpiration) := by
  apply h.mapDispensers
  · intro d hd
    -- the mark is no number
    unfold ChainRows.expireRow
    split
    · exact h.sound.known.dispensers d hd
    · exact h.sound.known.dispensers d hd
  · intro d _
    show t.namedDispenser (if d.expiration < minExpiration ∧ d.expiredBlockIndex = none then _ else _) =
      if d.expiration < minExpiration ∧ d.expiredBlockIndex = none then _ else _
    split
    · rfl
    · rfl

/-- A source is found by its number or by its spelling, it operates the same rows. -/
theorem operates_named (hS : Apart weight S) (h : Within S t) {source : String} (hsource : S source)
    {d : DispenserRow} (hd : t.KnownDispenser d) :
    ((t.indexAddresses.idOf source).isSome &&
      (some d.addressId = t.indexAddresses.idOf source ||
        d.sourceAddressId = t.indexAddresses.idOf source)) =
      Named.operates source (t.namedDispenser d) := by
  have haddress : some d.addressId = t.indexAddresses.idOf source ↔ t.addressOf d.addressId = source :=
    eq_comm.trans (idOf_iff hS h hsource hd.1)
  -- a row without a creator is operated by its own address only
  have hcreator : d.sourceAddressId.map t.addressOf = some source ↔
      (t.indexAddresses.idOf source).isSome ∧ d.sourceAddressId = t.indexAddresses.idOf source := by
    cases hid : d.sourceAddressId with
    | none =>
      cases t.indexAddresses.idOf source <;> simp
    | some id =>
      rw [Option.map_some, Option.some.injEq, ← idOf_iff hS h hsource (hd.2.2 id hid)]
      constructor
      · intro heq
        rw [heq]
        exact ⟨rfl, rfl⟩
      · exact fun heq => heq.2.symm
  rw [Bool.eq_iff_iff]
  simp only [Named.operates, namedDispenser, Bool.and_eq_true, Bool.or_eq_true, decide_eq_true_eq,
    hcreator, ← haddress]
  constructor
  · intro hboth
    exact hboth.2.imp id (fun heq => ⟨hboth.1, heq⟩)
  · intro heither
    rcases heither with heq | heq
    · rw [← heq]
      exact ⟨rfl, .inl rfl⟩
    · exact ⟨heq.1, .inr heq.2⟩

theorem extendable_named (hS : Apart weight S) (h : Within S t) {source : String}
    (hsource : S source) {d : DispenserRow} (hd : t.KnownDispenser d) (n : Int) :
    ChainRows.extendable (t.indexAddresses.idOf source) n d =
      Named.extendable source n (t.namedDispenser d) := by
  unfold ChainRows.extendable Named.extendable
  rw [operates_named hS h hsource hd]
  rfl

/-- Undo rows are told apart by the numbers or by the spellings. -/
theorem hasUndo_named (h : Known t) {u : ExtensionUndoRow} (hu : t.KnownAddress u.addressId) :
    ChainRows.hasUndo t.dispenserExtensionUndo u =
      Named.hasUndo t.named.dispenserExtensionUndo (t.namedUndo u) := by
  unfold ChainRows.hasUndo Named.hasUndo Tables.named
  rw [List.any_map, Bool.eq_iff_iff, List.any_eq_true, List.any_eq_true]
  apply exists_congr
  intro v
  apply and_congr_right
  intro hv
  simp only [Function.comp, namedUndo, addressOf_inj (h.undo v hv) hu]

/-- The new undo rows of an extend, by any test that both sides make alike. -/
theorem newUndo_named (h : Known t) {n : Int} {p : DispenserRow → Bool} {q : NamedDispenser → Bool}
    (hpq : ∀ d ∈ t.dispensers, p d = q (t.namedDispenser d)) :
    (((t.dispensers.filter p).map (ChainRows.undoRow n)).filter
        (fun u => !ChainRows.hasUndo t.dispenserExtensionUndo u)).map t.namedUndo =
      ((t.named.dispensers.filter q).map (Named.undoRow n)).filter
        (fun u => !Named.hasUndo t.named.dispenserExtensionUndo u) := by
  have hundo : ∀ d ∈ t.dispensers, ChainRows.hasUndo t.dispenserExtensionUndo (ChainRows.undoRow n d) =
      Named.hasUndo t.named.dispenserExtensionUndo (Named.undoRow n (t.namedDispenser d)) :=
    fun d hd => hasUndo_named h (h.dispensers d hd).1
  generalize hold : t.named.dispenserExtensionUndo = old at hundo ⊢
  show _ = List.filter _ (List.map _ (List.filter _ (t.dispensers.map t.namedDispenser)))
  generalize t.dispensers = ds at hpq hundo ⊢
  -- by induction on the rows, the undo rows on file kept fixed
  induction ds with
  | nil => rfl
  | cons d ds ih =>
    have hrest := ih (fun e he => hpq e (List.mem_cons_of_mem d he))
      (fun e he => hundo e (List.mem_cons_of_mem d he))
    have hp := hpq d List.mem_cons_self
    have hu := hundo d List.mem_cons_self
    rw [List.map_cons, List.filter_cons, List.filter_cons, ← hp]
    by_cases hpd : p d = true
    · rw [if_pos hpd, if_pos hpd, List.map_cons, List.filter_cons, List.map_cons, List.filter_cons, ← hu]
      by_cases hud : (!ChainRows.hasUndo t.dispenserExtensionUndo (ChainRows.undoRow n d)) = true
      · rw [if_pos hud, if_pos hud, List.map_cons, hrest]
        rfl
      · rw [if_neg hud, if_neg hud, hrest]
    · rw [if_neg hpd, if_neg hpd, hrest]

theorem says_extendEditedDispenser (hS : Apart weight S) (h : Says S t s) (n : Int)
    {edit : String × Int} (hedit : S edit.1) :
    Says S (t.extendEditedDispenser n edit) (s.extendEditedDispenser n edit) := by
  have hknown := h.sound.known
  have hextendable : ∀ d ∈ t.dispensers,
      ChainRows.extendable (t.indexAddresses.idOf edit.1) n d =
        Named.extendable edit.1 n (t.namedDispenser d) :=
    fun d hd => extendable_named hS h.sound.within hedit (hknown.dispensers d hd) n
  -- the pre-images
  have hundo : Says S (t.recordDispenserExtensionUndo edit.1 n) { s with
      dispenserExtensionUndo := s.dispenserExtensionUndo ++
        ((s.dispensers.filter (Named.extendable edit.1 n)).map (Named.undoRow n)).filter
          (fun u => !Named.hasUndo s.dispenserExtensionUndo u) } := by
    refine ⟨⟨h.sound.within.congr rfl, { hknown with undo := ?_ }⟩, ?_⟩
    · intro u hu
      rcases List.mem_append.mp hu with hu | hu
      · exact hknown.undo u hu
      · obtain ⟨d, hd, rfl⟩ := List.mem_map.mp (List.mem_filter.mp hu).1
        exact (hknown.dispensers d (List.mem_filter.mp hd).1).1
    · have hrows : (t.recordDispenserExtensionUndo edit.1 n).dispenserExtensionUndo.map t.namedUndo =
          t.named.dispenserExtensionUndo ++
            ((t.named.dispensers.filter (Named.extendable edit.1 n)).map (Named.undoRow n)).filter
              (fun u => !Named.hasUndo t.named.dispenserExtensionUndo u) := by
        show List.map t.namedUndo (t.dispenserExtensionUndo ++ _) = _
        rw [List.map_append]
        apply congrArg (t.named.dispenserExtensionUndo ++ ·)
        exact newUndo_named hknown (fun d hd => hextendable d hd)
      rw [← h.named, ← hrows]
      rfl
  -- the extend
  apply hundo.mapDispensers
  · intro d hd
    show t.KnownDispenser _
    split
    · exact hknown.dispensers d hd
    · exact hknown.dispensers d hd
  · intro d hd
    show t.namedDispenser (if ChainRows.extendable (t.indexAddresses.idOf edit.1) n d then
        ChainRows.extendRow edit.2 n d else d) =
      if Named.extendable edit.1 n (t.namedDispenser d) then
        Named.extendRow edit.2 n (t.namedDispenser d) else t.namedDispenser d
    rw [← hextendable d hd]
    by_cases hx : ChainRows.extendable (t.indexAddresses.idOf edit.1) n d = true
    · rw [if_pos hx, if_pos hx]
      rfl
    · rw [if_neg hx, if_neg hx]

/-! ## Section 4: Deleting a block -/

/-- A selection of rows, made alike on both sides. -/
theorem filter_named {α β : Type} {f : α → β} {p : α → Bool} {q : β → Bool} {l : List α}
    (hpq : ∀ a ∈ l, p a = q (f a)) : (l.filter p).map f = (l.map f).filter q := by
  rw [List.filter_map]
  exact congrArg (List.map f) (List.filter_congr hpq)

theorem txIndexesOf_named (t : Tables weight) (n : Int) :
    t.named.txIndexesOf n = t.toChainRows.txIndexesOf n := by
  show List.map _ (List.filter _ (t.transactions.map t.namedTransaction)) = _
  rw [List.filter_map, List.map_map]
  rfl

theorem restoreRow_named (h : Known t) {d : DispenserRow} (hd : t.KnownDispenser d) (n : Int) :
    t.namedDispenser (ChainRows.restoreRow t.dispenserExtensionUndo n d) =
      Named.restoreRow t.named.dispenserExtensionUndo n (t.namedDispenser d) := by
  have hundo : Named.undoOf t.named.dispenserExtensionUndo n (t.namedDispenser d) =
      (ChainRows.undoOf t.dispenserExtensionUndo n d).map t.namedUndo := by
    unfold Named.undoOf ChainRows.undoOf Tables.named
    rw [List.find?_map]
    -- the first row of the same key, found by number or by spelling
    apply congrArg (Option.map t.namedUndo)
    rw [← List.head?_filter, ← List.head?_filter]
    apply congrArg List.head?
    apply List.filter_congr
    intro u hu
    simp only [Function.comp, namedUndo, namedDispenser, addressOf_inj (h.undo u hu) hd.1]
  unfold Named.restoreRow ChainRows.restoreRow
  rw [hundo]
  cases ChainRows.undoOf t.dispenserExtensionUndo n d <;> rfl

/-- Reopening and restoring leave the numbers of a row alone. -/
theorem known_restoreRow {d : DispenserRow} (hd : t.KnownDispenser d) (n : Int) :
    t.KnownDispenser (ChainRows.clearExpiry n (ChainRows.restoreRow t.dispenserExtensionUndo n d)) := by
  have hclear : ∀ d', t.KnownDispenser d' → t.KnownDispenser (ChainRows.clearExpiry n d') := by
    intro d' hd'
    unfold ChainRows.clearExpiry
    split
    · exact hd'
    · exact hd'
  apply hclear
  unfold ChainRows.restoreRow
  cases ChainRows.undoOf t.dispenserExtensionUndo n d with
  | none   => exact hd
  | some u => exact hd

theorem says_deleteBlock (h : Says S t s) (n : Int) :
    Says S { t with toChainRows := t.toChainRows.deleteBlock n } (s.deleteBlock n) := by
  have hknown := h.sound.known
  refine ⟨⟨h.sound.within.congr rfl, ?_⟩, ?_⟩
  · constructor
    · exact fun b hb => hknown.blocks b (List.mem_filter.mp hb).1
    · exact fun x hx => hknown.transactions x (List.mem_filter.mp hx).1
    · exact fun o ho => hknown.outputs o (List.mem_filter.mp ho).1
    · intro d' hd'
      obtain ⟨d₁, hd₁, rfl⟩ := List.mem_map.mp (List.mem_filter.mp hd').1
      obtain ⟨d, hd, rfl⟩ := List.mem_map.mp hd₁
      exact known_restoreRow (hknown.dispensers d hd) n
    · exact fun u hu => hknown.undo u (List.mem_filter.mp hu).1
  · rw [← h.named]
    apply Named.ext
    · exact filter_named (fun b _ => rfl)
    · exact filter_named (fun x _ => rfl)
    · apply filter_named
      intro o _
      rw [txIndexesOf_named]
      rfl
    -- what is restored and reopened first, and then the rows of the block go
    · show List.map t.namedDispenser (List.filter _ (List.map _ (List.map _ t.dispensers))) =
        List.filter _ (List.map _ (List.map t.namedDispenser t.dispensers))
      rw [List.map_map, filter_named (q := fun d => d.txIndex ∉ t.named.txIndexesOf n)]
      · rw [List.map_map, List.map_map]
        apply congrArg (List.filter _)
        apply List.map_congr_left
        intro d hd
        show t.namedDispenser (ChainRows.clearExpiry n (ChainRows.restoreRow
          t.dispenserExtensionUndo n d)) = Named.clearExpiry n _
        rw [← restoreRow_named hknown (hknown.dispensers d hd)]
        unfold ChainRows.clearExpiry Named.clearExpiry
        generalize ChainRows.restoreRow t.dispenserExtensionUndo n d = d'
        by_cases hmark : d'.expiredBlockIndex = some n
        · rw [if_pos hmark, if_pos (show (t.namedDispenser d').expiredBlockIndex = some n from hmark)]
          rfl
        · rw [if_neg hmark, if_neg (show ¬ (t.namedDispenser d').expiredBlockIndex = some n from hmark)]
      · intro d _
        rw [txIndexesOf_named]
        rfl
    · exact filter_named (fun u _ => rfl)

/-- Deleting a block by its height; the REORG row is no part of what the tables say. -/
theorem says_deleteBlockByIndex (h : Says S t s) (n : Int) (hash : Option Hash) :
    Says S (t.deleteBlockByIndex n hash) (s.deleteBlock n) := by
  cases hash with
  | none => exact says_deleteBlock h n
  | some hash =>
    exact (says_deleteBlock h n).of_lookups
      ⟨List.prefix_rfl, List.prefix_rfl, List.prefix_rfl, List.suffix_cons _ _⟩ rfl
      (h.sound.within.congr rfl)

/-! ## Section 5: Reads, and the purge -/

theorem find?_toBlock (t : Tables weight) (n : Int) :
    t.named.blocks.find? (fun b => b.blockIndex = n) = t.getBlockByIndex n := by
  unfold Tables.named getBlockByIndex
  rw [List.find?_map]
  rfl

theorem blockTimeAt_named (t : Tables weight) (n : Int) :
    t.named.blockTimeAt n = t.toChainRows.blockTimeAt n := by
  unfold Named.blockTimeAt ChainRows.blockTimeAt Tables.named
  rw [List.find?_map, Option.map_map]
  rfl

theorem blockTimesBelow_named (t : Tables weight) (span : Nat) :
    ∀ n : Int, t.named.blockTimesBelow span n = t.blockTimesBelow span n := by
  induction span with
  | zero => exact fun _ => rfl
  | succ span ih =>
    intro n
    unfold Named.blockTimesBelow Tables.blockTimesBelow Named.getBlockByIndex
    rw [find?_toBlock]
    by_cases hneg : n < 0
    · rw [if_pos hneg, if_pos hneg]
    · rw [if_neg hneg, if_neg hneg]
      cases t.getBlockByIndex n with
      | none   => rfl
      | some b => exact congrArg (b.blockTime :: ·) (ih (n - 1))

theorem captures_named (t : Tables weight) (graceFloor : Option Int) (d : DispenserRow) :
    t.named.captures graceFloor (t.namedDispenser d) = t.toChainRows.captures graceFloor d := by
  cases graceFloor with
  | none => rfl
  | some floor =>
    have htime : t.named.blockTimeAt = t.toChainRows.blockTimeAt := funext (blockTimeAt_named t)
    simp only [Named.captures, ChainRows.captures, ChainRows.markTime, htime, namedDispenser]
    rfl

theorem purgeable_named (t : Tables weight) (safeHeight : Int) (graceFloor : Option Int)
    (d : DispenserRow) : t.toChainRows.purgeable safeHeight graceFloor d =
      t.named.purgeable safeHeight graceFloor (t.namedDispenser d) := by
  unfold ChainRows.purgeable Named.purgeable ChainRows.markTime
  have hmark : (t.namedDispenser d).expiredBlockIndex = d.expiredBlockIndex := rfl
  rw [hmark]
  -- marked low enough, and with a floor also long enough ago
  cases d.expiredBlockIndex with
  | none => rfl
  | some mark =>
    simp only [blockTimeAt_named, Option.bind_some]
    rfl

theorem says_purgeExpiredDispensers (h : Says S t s) (safeHeight : Int) (graceFloor : Option Int) :
    Says S (t.purgeExpiredDispensers safeHeight graceFloor)
      (s.purgeExpiredDispensers safeHeight graceFloor) := by
  have hknown := h.sound.known
  unfold purgeExpiredDispensers ChainRows.purgeExpiredDispensers Named.purgeExpiredDispensers
  by_cases hlow : safeHeight < 0
  · rw [if_pos hlow, if_pos hlow]
    exact h
  · rw [if_neg hlow, if_neg hlow]
    refine ⟨⟨h.sound.within.congr rfl, { hknown with dispensers := ?_, undo := ?_ }⟩, ?_⟩
    · exact fun d hd => hknown.dispensers d (List.mem_filter.mp hd).1
    · exact fun u hu => hknown.undo u (List.mem_filter.mp hu).1
    · rw [← h.named]
      apply Named.ext
      · rfl
      · rfl
      · rfl
      · apply filter_named
        intro d _
        show _ = !t.named.purgeable safeHeight graceFloor (t.namedDispenser d)
        rw [← purgeable_named]
      · exact filter_named (fun u _ => rfl)

theorem getAllOpenDispenserAddresses_named (h : Known t) (graceFloor : Option Int) :
    t.named.getAllOpenDispenserAddresses graceFloor = t.getAllOpenDispenserAddresses graceFloor := by
  unfold Named.getAllOpenDispenserAddresses Tables.getAllOpenDispenserAddresses
  show List.map _ (List.filter _ (t.dispensers.map t.namedDispenser)) = _
  rw [List.filter_map, List.map_map]
  have hsame : (t.named.captures graceFloor ∘ t.namedDispenser) = t.toChainRows.captures graceFloor :=
    funext (captures_named t graceFloor)
  rw [hsame, ← List.filterMap_eq_map]
  apply List.filterMap_congr
  intro d hd
  exact (known_of_eq (h.dispensers d (List.mem_filter.mp hd).1).1).symm

theorem openOracles_named (hS : Apart weight S) (h : Sound S t) {source : String}
    (hsource : S source) : t.named.openOracles source =
      (t.openOracles source).map (fun r => (t.namedDispenser r.1, r.2)) := by
  unfold Named.openOracles Tables.openOracles
  show List.filterMap _ (List.filter _ (t.dispensers.map t.namedDispenser)) = _
  rw [List.filter_map, List.filterMap_map, List.map_filterMap]
  have hopen : t.dispensers.filter ((fun d => Named.operates source d && d.expiredBlockIndex = none) ∘
      t.namedDispenser) = t.dispensers.filter (openFor (t.indexAddresses.idOf source)) := by
    apply List.filter_congr
    intro d hd
    unfold openFor
    rw [operates_named hS h.within hsource (h.known.dispensers d hd)]
    rfl
  rw [hopen]
  apply List.filterMap_congr
  intro d hd
  have hknown := h.known.dispensers d (List.mem_filter.mp hd).1
  show Option.map _ (d.oracleAddressId.map t.addressOf) = _
  cases hid : d.oracleAddressId with
  | none    => rfl
  | some id =>
    rw [Option.bind_some, known_of_eq (hknown.2.1 id hid)]
    rfl

theorem outranks_named (hS : Apart weight S) (h : Within S t) {source : String} (hsource : S source)
    {d e : DispenserRow} (hd : t.KnownDispenser d) (he : t.KnownDispenser e) :
    outranks (t.indexAddresses.idOf source) d e =
      Named.outranks source (t.namedDispenser d) (t.namedDispenser e) := by
  have hrow : ∀ d : DispenserRow, t.KnownDispenser d →
      (some d.addressId = t.indexAddresses.idOf source ↔ t.addressOf d.addressId = source) :=
    fun d hd => eq_comm.trans (idOf_iff hS h hsource hd.1)
  unfold outranks Named.outranks
  by_cases hd' : t.addressOf d.addressId = source
  · by_cases he' : t.addressOf e.addressId = source
    · simp [namedDispenser, hrow d hd, hrow e he, hd', he']
    · simp [namedDispenser, hrow d hd, hrow e he, hd', he']
  · by_cases he' : t.addressOf e.addressId = source
    · simp [namedDispenser, hrow d hd, hrow e he, hd', he']
    · simp [namedDispenser, hrow d hd, hrow e he, hd', he']
      rfl

theorem topRanked_named (hS : Apart weight S) (h : Within S t) {source : String} (hsource : S source)
    (rows : List (DispenserRow × String)) (hrows : ∀ r ∈ rows, t.KnownDispenser r.1) :
    Named.topRanked source (rows.map (fun r => (t.namedDispenser r.1, r.2))) =
      (topRanked (t.indexAddresses.idOf source) rows).map (fun r => (t.namedDispenser r.1, r.2)) ∧
    ∀ r ∈ topRanked (t.indexAddresses.idOf source) rows, t.KnownDispenser r.1 := by
  induction rows with
  | nil => exact ⟨rfl, fun r hr => absurd hr (Option.not_mem_none r)⟩
  | cons r rows ih =>
    obtain ⟨heq, hknown⟩ := ih (fun r' hr' => hrows r' (List.mem_cons_of_mem r hr'))
    have hr := hrows r List.mem_cons_self
    simp only [List.map_cons, Named.topRanked, topRanked, heq]
    cases htop : topRanked (t.indexAddresses.idOf source) rows with
    | none =>
      refine ⟨rfl, ?_⟩
      intro r' hr'
      rw [← Option.some.inj hr']
      exact hr
    | some u =>
      have hu := hknown u htop
      have houtranks := outranks_named hS h hsource hu hr
      simp only [Option.map_some, ← houtranks]
      by_cases hx : outranks (t.indexAddresses.idOf source) u.1 r.1 = true
      · simp only [if_pos hx, Option.map_some, Option.mem_some_iff, forall_eq', true_and]
        exact hu
      · simp only [if_neg hx, Option.map_some, Option.mem_some_iff, forall_eq', true_and]
        exact hr

theorem oracleFeeAddresses_named (hS : Apart weight S) (h : Sound S t) {source : Option String}
    (hsource : ∀ v ∈ source, S v) (request : OracleRequest) :
    t.named.oracleFeeAddresses source request = t.oracleFeeAddresses source request := by
  unfold Named.oracleFeeAddresses Tables.oracleFeeAddresses
  cases hpresent : source.filter (!·.isEmpty) with
  | none => cases request <;> rfl
  | some a =>
    have ha : S a := hsource a (Option.mem_filter_iff.mp hpresent).1
    have hopen := openOracles_named hS h ha
    cases request with
    | none      => rfl
    | named b   => rfl
    | everyOpen => simp only [hopen, List.map_map, Function.comp_def]
    | topOpen   =>
      have htop := (topRanked_named hS h.within ha (t.openOracles a) (by
        intro r hr
        obtain ⟨d, hd, hr⟩ := List.mem_filterMap.mp hr
        obtain ⟨oracle, -, rfl⟩ := Option.map_eq_some_iff.mp hr
        exact h.known.dispensers d (List.mem_filter.mp hd).1)).1
      simp only [hopen, htop, Option.map_map, Function.comp_def]

end Tables

/-! ## Section 6: The pass -/

variable {weight : String → String} {S : String → Prop} {rules : Rules} {head : BlockHead} {n : Int}

/-- The addresses of a create are in `S`. -/
structure DispenserCreate.Within (S : String → Prop) (c : DispenserCreate) : Prop where
  address : ∀ v ∈ c.address, S v
  oracle  : ∀ v ∈ c.oracleAddress, S v
  source  : ∀ v ∈ c.sourceAddress, S v

/-- Every address a result and the commands of its action name is in `S`. -/
structure ParseResult.Within (S : String → Prop) (rules : Rules) (r : ParseResult) : Prop where
  source      : ∀ v ∈ r.source, S v
  destination : ∀ v ∈ r.destination, S v
  outputs     : ∀ o ∈ r.dispenseOutputs ++ r.paymentOutputs, ∀ v ∈ o.destinationAddress, S v
  creates     : ∀ time, ∀ c ∈ rules.dispenserCreates
      (rules.captureCommands (buildStoredActionRecord rules r).data time) r.source time, c.Within S
  edits       : ∀ time, ∀ e ∈ dispenserEdits rules
      (rules.captureCommands (buildStoredActionRecord rules r).data time) r.source time, S e.1

/-- Every address a transaction can come to name is in `S`. -/
def RawTransaction.Within (S : String → Prop) (rules : Rules) (tx : RawTransaction) : Prop :=
  ∀ isOpen blockIndex r, rules.parseTransaction tx isOpen blockIndex = .result r → r.Within S rules

namespace Draft

open Tables

variable {d : Draft weight} {e : NamedDraft}

/-- The draft is on sound tables, and `e` is what it says. -/
structure Says (S : String → Prop) (d : Draft weight) (e : NamedDraft) : Prop where
  tables        : Tables.Says S d.tables e.store
  lastTxIndex   : d.lastTxIndex = e.lastTxIndex
  openAddresses : d.openAddresses = e.openAddresses

theorem Says.named (h : Says S d e) : d.named = e := by
  obtain ⟨htables, hindex, hopen⟩ := h
  unfold Draft.named
  rw [htables.named, hindex, hopen]

theorem payments_named (hS : Apart weight S) {t : Tables weight} {s : Named}
    (h : Tables.Says S t s) {r : ParseResult} (hr : r.Within S rules) (commands : List String) :
    payments rules head r commands t = NamedDraft.payments rules head r commands s := by
  unfold payments NamedDraft.payments
  rw [← h.named]
  simp only [oracleFeeAddresses_named hS h.sound hr.source]

theorem mem_payments {t : Tables weight} {r : ParseResult} {commands : List String} {o : Output}
    (ho : o ∈ payments rules head r commands t) : o ∈ r.paymentOutputs :=
  (List.mem_filter.mp ho).1

theorem says_createAddresses (hS : Apart weight S) (addresses : List String) :
    ∀ {t : Tables weight} {s : Named}, Tables.Says S t s → (∀ a ∈ addresses, S a) →
    Tables.Says S (t.createAddresses addresses) s := by
  induction addresses with
  | nil => exact fun h _ => h
  | cons a as ih =>
    intro t s h has
    have hfirst := (h.createAddress hS (a := some a) (by
      intro v hv
      rw [← Option.some.inj hv]
      exact has a List.mem_cons_self)).1
    exact ih hfirst (fun b hb => has b (List.mem_cons_of_mem a hb))

/-- A registration names what its candidates name. -/
theorem within_collapse {κ : Type} [DecidableEq κ] (keyOf : String → κ)
    {candidates : List DispenserCreate} (hall : ∀ c ∈ candidates, c.Within S) :
    ∀ c ∈ collapseRegistrationsByKey keyOf candidates, c.Within S := by
  intro c hc
  rw [collapseRegistrationsByKey_eq] at hc
  obtain ⟨⟨key, row⟩, hentry, rfl⟩ := List.mem_map.mp hc
  have hgroup : (∀ m ∈ (XChainDecoder.named candidates).filter (fun m => keyOf m.1 = key),
      m.2.Within S) →
      row.Within S := by
    -- by induction on the candidates of one key, merged one after the other
    refine Upsert.merged_induction (P := fun group row => (∀ m ∈ group, m.2.Within S) →
      row.Within S) ?_ ?_ (Upsert.mem_collect.mp hentry)
    · intro m hm
      have hfirst := hm m List.mem_cons_self
      exact ⟨hfirst.address, fun v hv => hfirst.oracle v (Option.mem_filter_iff.mp hv).1,
        hfirst.source⟩
    · intro group m old ih hm
      have hold := ih (fun m' hm' => hm m' (List.mem_append_left _ hm'))
      have hnew := hm m (List.mem_append_right _ List.mem_cons_self)
      refine ⟨hold.address, ?_, hold.source⟩
      intro v hv
      unfold mergeRegistration at hv
      dsimp only at hv
      split at hv
      · exact hold.oracle v hv
      · split at hv
        · exact hnew.oracle v hv
        · exact hold.oracle v hv
  exact hgroup (fun m hm => hall m.2 (mem_named.mp (List.mem_filter.mp hm).1).1)

/-- Spellings of `S` have one number only if they are one. -/
theorem collapse_byId (hS : Apart weight S) {t : Tables weight}
    {candidates : List DispenserCreate}
    (hnames : ∀ a ∈ XChainDecoder.createAddresses candidates, S a)
    (hfound : ∀ a ∈ XChainDecoder.createAddresses candidates, ∃ i, t.indexAddresses.idOf a = some i) :
    collapseRegistrationsByKey t.indexAddresses.idOf candidates =
      collapseRegistrationsByKey id candidates := by
  apply collapseRegistrationsByKey_congr
  intro a ha b hb
  constructor
  · intro heq
    obtain ⟨i, hi⟩ := hfound a ha
    exact hS a b (hnames a ha) (hnames b hb) (Index.key_eq_of_idOf_eq hi (heq ▸ hi))
  · exact fun heq => congrArg _ heq

theorem says_registrations (head : BlockHead) (hS : Apart weight S) {t : Tables weight} {s : Named}
    (h : Tables.Says S t s) {r : ParseResult} (hr : r.Within S rules)
    {commands : List String}
    (hcommands : commands = rules.captureCommands (buildStoredActionRecord rules r).data head.time) :
    (registrations rules head r commands t).1 = NamedDraft.registrations rules head r commands ∧
      Tables.Says S (registrations rules head r commands t).2 s := by
  have hnames : ∀ a ∈ XChainDecoder.createAddresses
      (rules.dispenserCreates commands r.source head.time), S a := by
    intro a ha
    obtain ⟨c, hc, ha⟩ := List.mem_filterMap.mp ha
    exact (hr.creates head.time c (hcommands ▸ hc)).address a (Option.mem_filter_iff.mp ha).1
  unfold registrations NamedDraft.registrations Tables.collapseDispenserRegistrations
  by_cases hbyId : collapsesById rules head.time
      (rules.dispenserCreates commands r.source head.time) = true
  -- by number: the addresses are interned first, so each of them has one
  · rw [if_pos hbyId]
    have hinterned := says_createAddresses hS _ h hnames
    have hfound : ∀ a ∈ XChainDecoder.createAddresses
        (rules.dispenserCreates commands r.source head.time), ∃ i,
        (t.createAddresses (XChainDecoder.createAddresses
          (rules.dispenserCreates commands r.source head.time))).indexAddresses.idOf a = some i :=
      fun a ha => idOf_createAddresses (fun _ => ne_of_mem_createAddresses) t ha
    exact ⟨collapse_byId hS hnames hfound, hinterned⟩
  · rw [if_neg hbyId]
    exact ⟨rfl, h⟩

/-- One stored transaction. -/
theorem says_persistTransaction (hS : Apart weight S) (h : Says S d e) {hash : Hash}
    {r : ParseResult} (hr : r.Within S rules) {stored : StoredRecord}
    (hstored : stored.data = (buildStoredActionRecord rules r).data) :
    Option.Rel (Says S) (d.persistTransaction rules head hash r stored)
      (e.persistTransaction rules head hash r stored) := by
  have hcommands : rules.captureCommands stored.data head.time =
      rules.captureCommands (buildStoredActionRecord rules r).data head.time := by rw [hstored]
  unfold persistTransaction NamedDraft.persistTransaction
  simp only [Option.bind_eq_bind, Option.pure_def, ← h.lastTxIndex, ← h.openAddresses]
  generalize hc : rules.captureCommands stored.data head.time = commands at hcommands
  -- the row, its outputs, its creates and its edits, each in step
  apply InStep.bind (says_insertTransaction hS h.tables _ hr.source hr.destination)
  intro t₁ s₁ h₁
  apply InStep.bind (says_insertOutputs hS d.lastTxIndex r.dispenseOutputs h₁
    (fun o ho => hr.outputs o (List.mem_append_left _ ho)))
  intro t₂ s₂ h₂
  rw [payments_named hS h₂ hr]
  apply InStep.bind (says_insertOutputs hS d.lastTxIndex _ h₂ (fun o ho =>
    hr.outputs o (List.mem_append_right _ (List.mem_filter.mp ho).1)))
  intro t₃ s₃ h₃
  obtain ⟨hcreates, h₄⟩ := says_registrations head hS h₃ hr hcommands
  have hwithin := within_collapse id (fun c hc => hr.creates head.time c (hcommands ▸ hc))
  have h₅ := InStep.foldl (R := Tables.Says S)
    (f := fun t c => Tables.registerDispenser d.lastTxIndex c t)
    (g := fun s c => Named.registerDispenser d.lastTxIndex c s) (fun c => c.Within S)
    (fun t s c h hc => says_registerDispenser hS h d.lastTxIndex hc.address hc.oracle hc.source)
    (NamedDraft.registrations rules head r commands) h₄ hwithin
  have h₆ := InStep.foldl (R := Tables.Says S)
    (f := fun t edit => Tables.extendEditedDispenser head.blockIndex edit t)
    (g := fun s edit => Named.extendEditedDispenser head.blockIndex edit s) (fun edit => S edit.1)
    (fun t s edit h hedit => says_extendEditedDispenser hS h head.blockIndex hedit)
    (dispenserEdits rules commands r.source head.time) h₅
    (fun edit hedit => hr.edits head.time edit (hcommands ▸ hedit))
  apply Option.Rel.some
  rw [hcreates]
  exact ⟨h₆, rfl, rfl⟩

theorem says_storeResult (hS : Apart weight S) (h : Says S d e) {hash : Hash} {r : ParseResult}
    (hr : r.Within S rules) :
    Option.Rel (Says S) (d.storeResult rules head hash r) (e.storeResult rules head hash r) := by
  have hnext : Says S { d with lastTxIndex := d.lastTxIndex + 1 }
      { e with lastTxIndex := e.lastTxIndex + 1 } :=
    ⟨h.tables, congrArg (· + 1) h.lastTxIndex, h.openAddresses⟩
  unfold storeResult NamedDraft.storeResult
  dsimp only
  apply InStep.ite Iff.rfl
  · intro _
    apply InStep.ite Iff.rfl
    · exact fun _ => .some hnext
    · intro _
      apply InStep.ite Iff.rfl
      · exact fun _ => .none
      · exact fun _ => says_persistTransaction hS hnext hr rfl
  · exact fun _ => .some h

/-- Audit rows and public keys are no part of what the tables say. -/
theorem Says.silent (h : Says S d e) {t : Tables weight} (hgrows : Grows d.tables t)
    (hrows : t.toChainRows = d.tables.toChainRows)
    (haddresses : t.indexAddresses = d.tables.indexAddresses) : Says S { d with tables := t } e :=
  ⟨h.tables.of_lookups hgrows hrows (h.tables.sound.within.congr haddresses), h.lastTxIndex,
    h.openAddresses⟩

theorem exposePubkey_indexAddresses (t : Tables weight) (source pubkey : Option String) :
    (t.exposePubkey source pubkey).indexAddresses = t.indexAddresses := by
  unfold exposePubkey insertPubkey
  split
  · split
    · rfl
    · split <;> rfl
  · rfl

theorem Says.exposed (h : Says S d e) (source pubkey : Option String) :
    Says S (d.write (Tables.exposePubkey · source pubkey)) e :=
  h.silent (changes_exposePubkey (n := 0) source pubkey).grows (exposePubkey_toChainRows _ _ _)
    (exposePubkey_indexAddresses _ _ _)

theorem Says.audited (h : Says S d e) (event : Event) :
    Says S (d.write (Tables.insertEvent · event)) e :=
  h.silent ⟨List.prefix_rfl, List.prefix_rfl, List.prefix_rfl, List.suffix_cons _ _⟩ rfl rfl

theorem says_ingestTransaction (hS : Apart weight S) (h : Says S d e) {quarantined : Bool}
    {position : Nat} {tx : RawTransaction} (htx : tx.Within S rules) :
    Option.Rel (Says S) (d.ingestTransaction rules head quarantined position tx)
      (e.ingestTransaction rules head quarantined tx) := by
  unfold ingestTransaction NamedDraft.ingestTransaction
  apply InStep.ite Iff.rfl
  · exact fun _ => .some (h.audited _)
  · intro _
    cases tx.id with
    | none      => exact .some (h.audited _)
    | some hash =>
      simp only [← h.openAddresses]
      cases hparse : rules.parseTransaction tx (· ∈ d.openAddresses) head.blockIndex with
      | nothing              => exact .some h
      | throws error exposed => exact .some ((h.exposed _ _).audited _)
      | result r             => exact says_storeResult hS (h.exposed _ _) (htx _ _ r hparse)

theorem says_ingestTransactions (hS : Apart weight S) (quarantined : Nat → Bool)
    (txs : List RawTransaction) :
    ∀ {d : Draft weight} {e : NamedDraft} (position : Nat), Says S d e →
    (∀ tx ∈ txs, tx.Within S rules) →
    Option.Rel (Says S) (d.ingestTransactions rules head quarantined position txs)
      (e.ingestTransactions rules head quarantined position txs) := by
  induction txs with
  | nil => exact fun _ h _ => .some h
  | cons tx txs ih =>
    intro d e position h htxs
    apply InStep.bind (says_ingestTransaction hS h (htxs tx List.mem_cons_self))
    intro d' e' h'
    exact ih (position + 1) h' (fun tx' htx' => htxs tx' (List.mem_cons_of_mem tx htx'))

theorem timesOf_named (block : RawBlock) (t : Tables weight) :
    NamedDraft.timesOf rules n block t.named = timesOf rules n block t := by
  unfold NamedDraft.timesOf timesOf
  rw [blockTimesBelow_named]

theorem says_openBlock {t : Tables weight} (h : Sound S t) (hash : Hash) (block : RawBlock)
    (lastTxIndex : Int) :
    Option.Rel (Says S) (openBlock rules n hash block t lastTxIndex)
      (NamedDraft.openBlock rules n hash block t.named lastTxIndex) := by
  unfold openBlock NamedDraft.openBlock
  simp only [Option.bind_eq_bind, Option.pure_def, timesOf_named]
  apply InStep.bind (says_insertBlock h.told n _ hash block.prevHash)
  intro t₁ s₁ h₁
  have h₂ := says_deleteOpenDispensers h₁ n (timesOf rules n block t).protocolBlockTime
  apply Option.Rel.some
  -- the dispensers are expired here, or only when the block is closed
  split
  · refine ⟨h₁, rfl, ?_⟩
    rw [← h₁.named]
    exact (getAllOpenDispenserAddresses_named h₁.sound.known _).symm
  · refine ⟨h₂, rfl, ?_⟩
    rw [← h₂.named]
    exact (getAllOpenDispenserAddresses_named h₂.sound.known _).symm

theorem Says.closeBlock (h : Says S d e) (time : Int) :
    Says S (d.closeBlock rules n time) (e.closeBlock rules n time) := by
  unfold Draft.closeBlock NamedDraft.closeBlock
  split
  · exact ⟨says_deleteOpenDispensers h.tables n time, h.lastTxIndex, h.openAddresses⟩
  · exact h

theorem says_ingestBlock (hS : Apart weight S) {t : Tables weight} (h : Sound S t)
    (quarantined : Nat → Bool) (hash : Hash) {block : RawBlock}
    (hblock : ∀ tx ∈ block.transactions, tx.Within S rules) (lastTxIndex : Int) :
    Option.Rel (Says S) (ingestBlock rules quarantined n hash block t lastTxIndex)
      (NamedDraft.ingestBlock rules quarantined n hash block t.named lastTxIndex) := by
  unfold ingestBlock NamedDraft.ingestBlock
  simp only [Option.bind_eq_bind, Option.pure_def, timesOf_named]
  apply InStep.bind (says_openBlock h hash block lastTxIndex)
  intro d₁ e₁ h₁
  apply InStep.bind (says_ingestTransactions hS quarantined block.transactions 0 h₁ hblock)
  intro d₂ e₂ h₂
  exact .some (h₂.closeBlock _)

end Draft
end XChainDecoder
