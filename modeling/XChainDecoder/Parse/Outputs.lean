import XChainDecoder.Parse.Transaction
import XChainDecoder.Ingest.Draft

/-! # The outputs of a transaction

    The rows of a transaction come from three lists: its dispenses, its payments, and
    the fee outputs of its funding transaction. All are stored under one transaction
    index, by output number; the numbers of the funding transaction are moved above any
    number of the transaction itself.

    So no two rows have one number, and the inserts of a transaction never meet. -/

namespace XChainDecoder.Parse

/-! ## Section 1: Numbers -/

theorem le_vout_addressable (lib : Library) {outs : List Wire.TxOut} {n : ℕ} {o : Output}
    (h : o ∈ addressable lib n outs) : n ≤ o.vout ∧ o.vout < n + outs.length := by
  induction outs generalizing n with
  | nil => cases h
  | cons out outs ih =>
    rw [addressable, List.mem_append] at h
    rw [List.length_cons]
    rcases h with hhead | htail
    · obtain ⟨address, -, rfl⟩ := List.mem_map.mp hhead
      show n ≤ n ∧ n < n + (outs.length + 1)
      omega
    · have := ih htail
      omega

/-- The numbers of the addressable outputs rise. -/
theorem pairwise_vout_addressable (lib : Library) (n : ℕ) (outs : List Wire.TxOut) :
    (addressable lib n outs).Pairwise (fun a b => a.vout < b.vout) := by
  induction outs generalizing n with
  | nil => exact List.Pairwise.nil
  | cons out outs ih =>
    rw [addressable, List.pairwise_append]
    refine ⟨?_, ih (n + 1), ?_⟩
    · cases addressOf lib out.script <;> simp
    · intro a ha b hb
      obtain ⟨address, -, rfl⟩ := List.mem_map.mp ha
      have := (le_vout_addressable lib hb).1
      show n < b.vout
      omega

theorem mem_addressable {lib : Library} {outs : List Wire.TxOut} {n i : ℕ} {o : Wire.TxOut}
    {address : String} (hout : outs[i]? = some o) (haddress : addressOf lib o.script = some address) :
    storedOutput (n + i) address o ∈ addressable lib n outs := by
  induction outs generalizing n i with
  | nil => cases hout
  | cons out outs ih =>
    rw [addressable, List.mem_append]
    cases i with
    | zero =>
      have hout : out = o := Option.some.inj hout
      rw [hout, haddress]
      exact .inl (by simp)
    | succ i =>
      have hrest := ih (n := n + 1) (i := i) hout
      rw [show n + 1 + i = n + (i + 1) by omega] at hrest
      exact .inr hrest

/-- An addressable output is one of the transaction, with its own address and value. -/
theorem exists_of_mem_addressable {lib : Library} {outs : List Wire.TxOut} {n : ℕ} {row : Output}
    (h : row ∈ addressable lib n outs) : ∃ i o address, outs[i]? = some o ∧
      addressOf lib o.script = some address ∧ row = storedOutput (n + i) address o := by
  induction outs generalizing n with
  | nil => cases h
  | cons out outs ih =>
    rw [addressable, List.mem_append] at h
    rcases h with hhead | htail
    · obtain ⟨address, haddress, rfl⟩ := List.mem_map.mp hhead
      exact ⟨0, out, address, rfl, Option.mem_toList.mp haddress, rfl⟩
    · obtain ⟨i, o, address, hout, haddress, rfl⟩ := ih htail
      exact ⟨i + 1, o, address, hout, haddress, by rw [show n + (i + 1) = n + 1 + i by omega]⟩

theorem le_of_mem_indexed {outs : List Wire.TxOut} {n : ℕ} {p : ℕ × Wire.TxOut}
    (h : p ∈ indexed n outs) : n ≤ p.1 := by
  induction outs generalizing n with
  | nil => cases h
  | cons out outs ih =>
    rcases List.mem_cons.mp h with rfl | h
    · exact Nat.le_refl _
    · have := ih h
      omega

theorem pairwise_indexed (n : ℕ) (outs : List Wire.TxOut) :
    (indexed n outs).Pairwise (fun a b => a.1 < b.1) := by
  induction outs generalizing n with
  | nil => exact List.Pairwise.nil
  | cons out outs ih =>
    refine List.pairwise_cons.mpr ⟨?_, ih (n + 1)⟩
    intro p hp
    have := le_of_mem_indexed hp
    show n < p.1
    omega

/-- The numbers of the outputs that pay an address rise. -/
theorem pairwise_vout_outputsPaying (lib : Library) (destination : String)
    (outs : List Wire.TxOut) :
    (outputsPaying lib destination outs).Pairwise (fun a b => a.vout < b.vout) := by
  unfold outputsPaying
  refine List.pairwise_filterMap.mpr ((pairwise_indexed 0 outs).imp ?_)
  intro a b hlt o ho o' ho'
  split_ifs at ho with hpays
  split_ifs at ho' with hpays'
  rw [← Option.some.inj ho, ← Option.some.inj ho']
  exact hlt

theorem le_vout_remapFunding {outputs : List Output} {fee : Output}
    (h : fee ∈ remapFunding outputs) : FUNDING_VOUT_BASE ≤ fee.vout := by
  obtain ⟨o, -, rfl⟩ := List.mem_map.mp h
  exact Nat.le_add_right _ _

/-! ## Section 2: The lists of a parse -/

/-- What a parse says of the outputs: its own, sorted by whether they pay a dispenser,
    and behind its own payments the fee outputs of a funding transaction. -/
structure OutputsOf (lib : Library) (openDispenserAddresses : String → Bool)
    (outs : List Wire.TxOut) (parsed : ParsedTransaction) : Prop where
  dispense : parsed.dispenseOutputs =
    (addressable lib 0 outs).filter (paysDispenser openDispenserAddresses)
  payment : ∃ destination funding, parsed.paymentOutputs =
    (addressable lib 0 outs).filter (fun o => !paysDispenser openDispenserAddresses o) ++
      remapFunding (outputsPaying lib destination funding)

theorem within_attributeFundingFees (lib : Library) (net : Network) (arb : Arbitrated)
    (sourceTransaction : Option Wire.Transaction) (env : Surroundings) :
    Proc.Within env (fun _ => True) (attributeFundingFees lib net arb sourceTransaction)
      (fun fees => ∃ destination funding,
        fees = remapFunding (outputsPaying lib destination funding)) (fun _ => True) := by
  unfold attributeFundingFees
  cases arb.p2shFundingTxId with
  | none => exact Proc.within_pure ⟨"", [], rfl⟩
  | some fundingTxId =>
    refine Proc.within_bind (R := fun outputs => ∃ destination funding,
      outputs = outputsPaying lib destination funding) ?_ (fun outputs h => ?_)
    · unfold findFundingFeeOutputs
      cases net.feeDestination.filter (!·.isEmpty) with
      | none => exact Proc.within_pure ⟨"", [], rfl⟩
      | some destination =>
        refine Proc.within_bind (Proc.within_true _) (fun fundingTx _ => ?_)
        exact Proc.within_pure ⟨destination, fundingTx.outs, rfl⟩
    · obtain ⟨destination, funding, rfl⟩ := h
      exact Proc.within_pure ⟨destination, funding, rfl⟩

theorem within_resolveXChainTransaction (lib : Library) (net : Network) (blockHeight : Option Int)
    (input : Wire.TxIn) (scan : Scan) (arb : Arbitrated) (env : Surroundings) :
    Proc.Within env (fun _ => True) (resolveXChainTransaction lib net blockHeight input scan arb)
      (fun parsed => parsed.dispenseOutputs = scan.dispenseOutputs ∧ ∃ destination funding,
        parsed.paymentOutputs = scan.paymentOutputs ++
          remapFunding (outputsPaying lib destination funding)) (fun _ => True) := by
  unfold resolveXChainTransaction
  refine Proc.within_bind (Proc.within_true _) (fun payload _ => ?_)
  refine Proc.within_bind (Proc.within_true _) (fun resolved _ => ?_)
  refine Proc.within_bind (Proc.within_true _) (fun sourcePubkey _ => ?_)
  refine Proc.within_bind (within_attributeFundingFees lib net arb resolved.2 env) (fun fees h => ?_)
  obtain ⟨destination, funding, rfl⟩ := h
  exact Proc.within_pure ⟨rfl, destination, funding, rfl⟩

/-- Whatever the node and the database answer, a parse that ends with a result says this
    of the outputs. -/
theorem within_parseTransaction (lib : Library) (net : Network)
    (openDispenserAddresses : String → Bool) (blockHeight : Option Int) (tx : BlockTransaction)
    (env : Surroundings) :
    Proc.Within env (fun _ => True)
      (parseTransaction lib net openDispenserAddresses blockHeight tx)
      (fun result => ∀ parsed ∈ result, OutputsOf lib openDispenserAddresses tx.outs parsed)
      (fun _ => True) := by
  unfold parseTransaction
  cases tx.ins with
  | nil => exact Proc.within_pure nofun
  | cons input ins =>
    refine Proc.within_ite (fun _ => Proc.within_pure nofun) (fun _ => ?_)
    refine Proc.within_bind (R := OutputsOf lib openDispenserAddresses tx.outs) ?_ ?_
    · unfold parseXChainTransaction parseBeside
      refine Proc.within_bind (scanOutputs_outputs lib net _ openDispenserAddresses env tx.outs 0
        Scan.start) (fun scan hscan => ?_)
      refine Proc.within_bind (Proc.within_true _) (fun arb _ => ?_)
      refine (within_resolveXChainTransaction lib net blockHeight input scan arb env).weaken ?_
        (fun _ _ => trivial)
      intro parsed h
      obtain ⟨hdispense, destination, funding, hpayment⟩ := h
      refine ⟨?_, destination, funding, ?_⟩
      · rw [hdispense, hscan.1]
        rfl
      · rw [hpayment, hscan.2]
        rfl
    · intro parsed h
      refine Proc.within_pure (fun parsed' hparsed' => ?_)
      rw [← Option.some.inj hparsed']
      exact h

/-! ## Section 3: One number, one row -/

/-- The rows of a transaction have pairwise distinct numbers. -/
theorem OutputsOf.nodup_vout {lib : Library} {openDispenserAddresses : String → Bool}
    {outs : List Wire.TxOut} {parsed : ParsedTransaction}
    (h : OutputsOf lib openDispenserAddresses outs parsed) (hfew : outs.length < FUNDING_VOUT_BASE) :
    ((parsed.dispenseOutputs ++ parsed.paymentOutputs).map Output.vout).Nodup := by
  obtain ⟨destination, funding, hpayment⟩ := h.payment
  rw [h.dispense, hpayment, ← List.append_assoc, List.map_append]
  have hown : (((addressable lib 0 outs).filter (paysDispenser openDispenserAddresses) ++
      (addressable lib 0 outs).filter (fun o => !paysDispenser openDispenserAddresses o)).map
        Output.vout).Nodup := by
    have hperm := (List.filter_append_perm (paysDispenser openDispenserAddresses)
      (addressable lib 0 outs)).map Output.vout
    refine hperm.nodup_iff.mpr ?_
    exact List.pairwise_map.mpr ((pairwise_vout_addressable lib 0 outs).imp (fun hlt => Nat.ne_of_lt hlt))
  have hfees : ((remapFunding (outputsPaying lib destination funding)).map Output.vout).Nodup := by
    unfold remapFunding
    rw [List.map_map]
    refine List.pairwise_map.mpr ((pairwise_vout_outputsPaying lib destination funding).imp ?_)
    intro a b hlt
    show FUNDING_VOUT_BASE + a.vout ≠ FUNDING_VOUT_BASE + b.vout
    omega
  refine List.nodup_append.mpr ⟨hown, hfees, ?_⟩
  -- Its own numbers lie below the base, those of the funding transaction do not.
  intro v hv w hw
  obtain ⟨o, ho, rfl⟩ := List.mem_map.mp hv
  obtain ⟨fee, hfee, rfl⟩ := List.mem_map.mp hw
  obtain ⟨o', -, rfl⟩ := List.mem_map.mp hfee
  have hlow : o.vout < FUNDING_VOUT_BASE := by
    rcases List.mem_append.mp ho with ho | ho
    · have := (le_vout_addressable lib (List.mem_filter.mp ho).1).2
      omega
    · have := (le_vout_addressable lib (List.mem_filter.mp ho).1).2
      omega
  show o.vout ≠ FUNDING_VOUT_BASE + o'.vout
  omega

theorem paysDispenser_storedOutput (openDispenserAddresses : String → Bool) (vout : ℕ)
    (address : String) (o : Wire.TxOut) :
    paysDispenser openDispenserAddresses (storedOutput vout address o) =
      openDispenserAddresses address := rfl

/-- An addressable output is in the list it belongs to, and in no other. -/
theorem OutputsOf.mem_iff {lib : Library} {openDispenserAddresses : String → Bool}
    {outs : List Wire.TxOut} {parsed : ParsedTransaction}
    (h : OutputsOf lib openDispenserAddresses outs parsed) (hfew : outs.length < FUNDING_VOUT_BASE)
    {i : ℕ} {o : Wire.TxOut} {address : String} (hout : outs[i]? = some o)
    (haddress : addressOf lib o.script = some address) :
    (storedOutput i address o ∈ parsed.dispenseOutputs ↔ openDispenserAddresses address = true) ∧
    (storedOutput i address o ∈ parsed.paymentOutputs ↔ openDispenserAddresses address = false) := by
  obtain ⟨destination, funding, hpayment⟩ := h.payment
  have hmem : storedOutput i address o ∈ addressable lib 0 outs := by
    have := mem_addressable (n := 0) hout haddress
    rwa [Nat.zero_add] at this
  have hlow : (storedOutput i address o).vout < FUNDING_VOUT_BASE := by
    have := (le_vout_addressable lib hmem).2
    omega
  have hnotFee : storedOutput i address o ∉ remapFunding (outputsPaying lib destination funding) := by
    intro hfee
    obtain ⟨o', -, heq⟩ := List.mem_map.mp hfee
    have hvout := congrArg Output.vout heq
    simp only at hvout
    omega
  rw [h.dispense, hpayment]
  constructor
  · rw [List.mem_filter, paysDispenser_storedOutput]
    simp only [hmem, true_and]
  · rw [List.mem_append, List.mem_filter, paysDispenser_storedOutput]
    simp only [hmem, hnotFee, true_and, or_false, Bool.not_eq_true']

/-- Every row is an output of the transaction, or a fee output above the base. -/
theorem OutputsOf.exists_output {lib : Library} {openDispenserAddresses : String → Bool}
    {outs : List Wire.TxOut} {parsed : ParsedTransaction}
    (h : OutputsOf lib openDispenserAddresses outs parsed) {row : Output}
    (hrow : row ∈ parsed.dispenseOutputs ++ parsed.paymentOutputs) :
    (∃ i o address, outs[i]? = some o ∧ addressOf lib o.script = some address ∧
      row = storedOutput i address o) ∨ FUNDING_VOUT_BASE ≤ row.vout := by
  obtain ⟨destination, funding, hpayment⟩ := h.payment
  have hown : ∀ row ∈ addressable lib 0 outs, ∃ i o address, outs[i]? = some o ∧
      addressOf lib o.script = some address ∧ row = storedOutput i address o := by
    intro row hrow
    obtain ⟨i, o, address, hout, haddress, rfl⟩ := exists_of_mem_addressable hrow
    exact ⟨i, o, address, hout, haddress, by rw [Nat.zero_add]⟩
  rw [h.dispense, hpayment, List.mem_append, List.mem_append] at hrow
  rcases hrow with hrow | hrow | hrow
  · exact .inl (hown row (List.mem_filter.mp hrow).1)
  · exact .inl (hown row (List.mem_filter.mp hrow).1)
  · exact .inr (le_vout_remapFunding hrow)

/-! ## Section 4: The inserts -/

section Inserts

variable {weight : String → String}

/-- The output rows of a transaction index. -/
def storedVouts (t : Tables weight) (txIndex : Int) : List ℕ :=
  (t.transactionOutputs.filter (fun r => r.txIndex = txIndex)).map TransactionOutputRow.vout

/-- An insert whose number is free goes through and takes that number alone. -/
theorem exists_insertOutput {t : Tables weight} {txIndex : Int} {o : Output}
    (hfree : o.vout ∉ storedVouts t txIndex) :
    ∃ t', t.insertOutput txIndex o = some t' ∧
      storedVouts t' txIndex = storedVouts t txIndex ++ [o.vout] := by
  have hkey : ¬ (txIndex, o.vout) ∈ t.transactionOutputs.map (fun r => (r.txIndex, r.vout)) := by
    intro hmem
    obtain ⟨r, hr, heq⟩ := List.mem_map.mp hmem
    obtain ⟨htx, hvout⟩ := Prod.mk.inj heq
    exact hfree (List.mem_map.mpr ⟨r, List.mem_filter.mpr ⟨hr, by simpa using htx⟩, hvout⟩)
  unfold Tables.insertOutput Tables.insertTransactionOutput
  simp only [if_neg hkey]
  refine ⟨_, rfl, ?_⟩
  simp [storedVouts]

/-- A list of outputs with distinct, free numbers is inserted as a whole. -/
theorem exists_insertOutputs {txIndex : Int} {outputs : List Output} :
    ∀ {t : Tables weight}, (storedVouts t txIndex ++ outputs.map Output.vout).Nodup →
      ∃ t', Tables.insertOutputs txIndex outputs t = some t' ∧
        storedVouts t' txIndex = storedVouts t txIndex ++ outputs.map Output.vout := by
  induction outputs with
  | nil =>
    intro t _
    exact ⟨t, rfl, by simp⟩
  | cons o outputs ih =>
    intro t hnodup
    rw [List.map_cons, List.append_cons] at hnodup
    have hfree : o.vout ∉ storedVouts t txIndex := by
      have hhead := (List.nodup_append.mp hnodup).1
      intro hmem
      exact (List.nodup_append.mp hhead).2.2 _ hmem _ (List.mem_singleton_self _) rfl
    obtain ⟨t', hinsert, hvouts⟩ := exists_insertOutput hfree
    rw [← hvouts] at hnodup
    obtain ⟨t'', hrest, hvouts'⟩ := ih hnodup
    refine ⟨t'', ?_, ?_⟩
    · unfold Tables.insertOutputs
      rw [hinsert]
      exact hrest
    · rw [hvouts', hvouts]
      simp

end Inserts

/-- **Complete and unique.** For every transaction of fewer outputs than the base, the
    rows of any parse have pairwise distinct numbers, every output with an address is in
    exactly one of the two lists under its own number, address and value, and there are
    no rows besides but those of the funding transaction. So on tables that hold no
    output under its index, all inserts of the transaction go through, whichever
    payments are captured. -/
theorem outputs_complete_and_unique {lib : Library} {net : Network}
    {openDispenserAddresses : String → Bool} {blockHeight : Option Int} {tx : BlockTransaction}
    {env : Surroundings} {trace trace' : Trace} {parsed : ParsedTransaction}
    (hfew : tx.outs.length < FUNDING_VOUT_BASE)
    (hparse : parseTransaction lib net openDispenserAddresses blockHeight tx env trace =
      (.ok (some parsed), trace')) :
    ((parsed.dispenseOutputs ++ parsed.paymentOutputs).map Output.vout).Nodup ∧
    (∀ (i : ℕ) (o : Wire.TxOut) (address : String), tx.outs[i]? = some o →
      addressOf lib o.script = some address →
      (storedOutput i address o ∈ parsed.dispenseOutputs ↔ openDispenserAddresses address = true) ∧
      (storedOutput i address o ∈ parsed.paymentOutputs ↔ openDispenserAddresses address = false)) ∧
    (∀ row ∈ parsed.dispenseOutputs ++ parsed.paymentOutputs,
      (∃ (i : ℕ) (o : Wire.TxOut) (address : String), tx.outs[i]? = some o ∧
        addressOf lib o.script = some address ∧ row = storedOutput i address o) ∨
      FUNDING_VOUT_BASE ≤ row.vout) ∧
    ∀ (weight : String → String) (rules : Rules) (commands oracles : List String) (txIndex : Int)
      (t : Tables weight), (∀ r ∈ t.transactionOutputs, r.txIndex ≠ txIndex) →
      ∃ t' t'', Tables.insertOutputs txIndex parsed.dispenseOutputs t = some t' ∧
        Tables.insertOutputs txIndex
          (capturedPayments rules commands oracles parsed.paymentOutputs) t' = some t'' := by
  have houtputs : OutputsOf lib openDispenserAddresses tx.outs parsed :=
    (within_parseTransaction lib net openDispenserAddresses blockHeight tx env).answered
      trivial hparse parsed rfl
  have hnodup := houtputs.nodup_vout hfew
  refine ⟨hnodup, fun i o address hout haddress => houtputs.mem_iff hfew hout haddress,
    fun row hrow => houtputs.exists_output hrow, ?_⟩
  intro weight rules commands oracles txIndex t hclean
  -- the key of a row is its transaction and its vout, and this transaction is new
  have hempty : storedVouts t txIndex = [] := by
    unfold storedVouts
    rw [List.map_eq_nil_iff, List.filter_eq_nil_iff]
    intro r hr
    simpa using hclean r hr
  rw [List.map_append] at hnodup
  have hdispenses : (storedVouts t txIndex ++ parsed.dispenseOutputs.map Output.vout).Nodup := by
    rw [hempty, List.nil_append]
    exact (List.nodup_append.mp hnodup).1
  obtain ⟨t', hdispense, hvouts⟩ := exists_insertOutputs hdispenses
  -- the payments that are captured are some of the payments
  have hpayments : (storedVouts t' txIndex ++
      (capturedPayments rules commands oracles parsed.paymentOutputs).map Output.vout).Nodup := by
    rw [hvouts, hempty, List.nil_append]
    refine hnodup.sublist (List.Sublist.append_left ?_ _)
    exact List.filter_sublist.map Output.vout
  obtain ⟨t'', hpayment, -⟩ := exists_insertOutputs hpayments
  exact ⟨t', t'', hdispense, hpayment⟩

namespace Sample

/-- An input that spends output 0 of a transaction whose id is this byte repeated. -/
def spend (id : UInt8) (witness : List (List UInt8)) : Wire.TxIn :=
  ⟨Vector.replicate 32 id, 0, [], 0, witness⟩

def transaction (ins : List Wire.TxIn) (outs : List Wire.TxOut) : Wire.Transaction :=
  ⟨2, ins, outs, 0⟩

/-- One address for each script of one byte. -/
def addressed (commit : Wire.Transaction) : Library :=
  { library with
    fromOutputScript := fun script =>
      if script = [1] then some "dispenser" else if script = [2] then some "other" else none
    transactionFromHex := fun _ => .ok commit }

/-- A node that serves every transaction. -/
def serving : Surroundings := { silent with getRawTransaction := fun _ _ => .raw [] }

def openNetwork : Network := ⟨none, none, true, none, none⟩

/-- A payment to a dispenser and one to somebody else. -/
def twoPayments : BlockTransaction :=
  { transaction [spend 3 []] [⟨5, [1]⟩, ⟨6, [2]⟩] with txid := "03" }

def twoPaymentsParsed : ParsedTransaction where
  data               := []
  compiledDataLength := 0
  rawData            := none
  source             := some "other"
  sourcePubkey       := none
  destination        := none
  dispenseOutputs    := [⟨0, some "dispenser", 5⟩]
  paymentOutputs     := [⟨1, some "other", 6⟩]
  payloadCeiling     := MAX_ACTION_DATA_LENGTH
  envelope           := false

theorem parse_twoPayments :
    parseTransaction (addressed (transaction [spend 4 []] [⟨9, [2]⟩])) openNetwork
        (· = "dispenser") (some 100) twoPayments serving Trace.start =
      (.ok (some twoPaymentsParsed), ⟨[Vector.replicate 32 3], [], 0, 0⟩) := by
  rfl

theorem twoPayments_distinct :
    ((twoPaymentsParsed.dispenseOutputs ++ twoPaymentsParsed.paymentOutputs).map Output.vout).Nodup :=
  (outputs_complete_and_unique (show twoPayments.outs.length < FUNDING_VOUT_BASE by decide)
    parse_twoPayments).1

end Sample

end XChainDecoder.Parse
