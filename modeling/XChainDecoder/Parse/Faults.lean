import XChainDecoder.Parse.Transaction

/-! # What a parse asks for, and whom a fault blames

    Three lookups of a parse go to the node: the walk back to the source, the commit of
    an envelope, and the funding transaction. Each id they ask for is named by an input
    of the transaction, or by an input of a transaction one of those spends from, and is
    never the id of nothing that a coinbase spends.

    A fault is marked only where a lookup failed. What the bytes of a transaction come
    to, however they were chosen, is thrown unmarked. -/

namespace XChainDecoder.Parse

open Script (Element)

/-! ## Section 1: Requests and marks -/

/-- The inputs spend from this transaction, and it is one. -/
def SpendsFrom (ins : List Wire.TxIn) (txid : Txid) : Prop :=
  txid ≠ COINBASE_PREV_TXID ∧ ∃ input ∈ ins, input.hash = txid

/-- The node serves this transaction under this id. -/
def Served (lib : Library) (env : Surroundings) (txid : Txid) (tx : Wire.Transaction) : Prop :=
  ∃ n bytes, env.getRawTransaction n txid = .raw bytes ∧ lib.transactionFromHex bytes = .ok tx

/-- What a transaction spends from, and what that spends from. -/
def Near (lib : Library) (env : Surroundings) (ins : List Wire.TxIn) (txid : Txid) : Prop :=
  SpendsFrom ins txid ∨
    ∃ first tx, SpendsFrom ins first ∧ Served lib env first tx ∧ SpendsFrom tx.ins txid

/-- The node fails a request for this id, or has nothing under it. -/
def NodeFails (env : Surroundings) (txid : Txid) : Prop :=
  ∃ n, env.getRawTransaction n txid = .empty ∨ ∃ error, env.getRawTransaction n txid = .failed error

/-- The database fails a call. -/
def DatabaseFails (env : Surroundings) : Prop :=
  (∃ address error, env.getAddressId address = .failed error) ∨
  (∃ addressId error, env.hasPubkey addressId = .failed error) ∨
  ∃ addressId pubkey error, env.insertPubkey addressId pubkey = .failed error

/-- Behind the marks of a fault stand lookups that failed, of the node only for ids that
    are near. -/
structure Blames (env : Surroundings) (near : Txid → Prop) (e : Fault) : Prop where
  rpc : e.rpcLookupFailure = true → ∃ txid, near txid ∧ NodeFails env txid
  db  : e.dbLookupFailure = true → DatabaseFails env

theorem Fault.Unmarked.blames {e : Fault} (h : e.Unmarked) (env : Surroundings)
    (near : Txid → Prop) : Blames env near e where
  rpc hmark := by rw [h.1] at hmark; cases hmark
  db hmark := by rw [h.2] at hmark; cases hmark

/-- Since this trace only ids that are near have been asked for. -/
def AsksOnly (near : Txid → Prop) (start trace : Trace) : Prop :=
  ∃ asked, trace.asked = start.asked ++ asked ∧ ∀ txid ∈ asked, near txid

theorem AsksOnly.refl (near : Txid → Prop) (trace : Trace) : AsksOnly near trace trace :=
  ⟨[], by simp, nofun⟩

theorem AsksOnly.ask {near : Txid → Prop} {start trace : Trace} (h : AsksOnly near start trace)
    {txid : Txid} (hnear : near txid) :
    AsksOnly near start { trace with asked := trace.asked ++ [txid] } := by
  obtain ⟨asked, heq, hall⟩ := h
  refine ⟨asked ++ [txid], ?_, ?_⟩
  · show trace.asked ++ [txid] = _
    rw [heq, List.append_assoc]
  · intro txid' hmem
    rcases List.mem_append.mp hmem with hmem | hmem
    · exact hall txid' hmem
    · rw [List.mem_singleton.mp hmem]
      exact hnear

/-- A step that asks only for what is near, and throws no mark without a failed lookup. -/
def Classified {α : Type} (env : Surroundings) (near : Txid → Prop) (start : Trace)
    (m : Steps α) (Q : α → Prop) : Prop :=
  Proc.Within env (AsksOnly near start) m Q (Blames env near)

section Steps

variable {lib : Library} {net : Network} {env : Surroundings} {near : Txid → Prop} {start : Trace}
variable {α β : Type}

/-! ## Section 2: Steps that ask for nothing -/

/-- A step that asks for nothing and notes nothing: it may count parse errors, and what it
    throws has no mark. -/
def Quiet {α : Type} (m : Steps α) : Prop :=
  ∀ (env : Surroundings) (I : Trace → Prop) (F : Fault → Prop),
    (∀ t, I t → I { t with parseErrors := t.parseErrors + 1 }) → (∀ e, e.Unmarked → F e) →
    Proc.Within env I m (fun _ => True) F

theorem quiet_pure (a : α) : Quiet (pure a : Steps α) :=
  fun _ _ _ _ _ => Proc.within_pure trivial

theorem quiet_content (message : String) : Quiet (throw (.content message) : Steps α) :=
  fun _ _ _ _ hF => Proc.within_throw (hF _ (Fault.unmarked_content message))

theorem quiet_bind {m : Steps α} {f : α → Steps β} (hm : Quiet m) (hf : ∀ a, Quiet (f a)) :
    Quiet (m >>= f) :=
  fun env I F hI hF => Proc.within_bind (hm env I F hI hF) (fun a _ => hf a env I F hI hF)

theorem quiet_ite {c : Prop} [Decidable c] {m m' : Steps α} (hm : Quiet m) (hm' : Quiet m') :
    Quiet (if c then m else m') :=
  fun env I F hI hF => Proc.within_ite (fun _ => hm env I F hI hF) (fun _ => hm' env I F hI hF)

theorem quiet_ofLibrary (call : Except String α) : Quiet (ofLibrary call) := by
  cases call with
  | ok a => exact quiet_pure a
  | error error => exact quiet_content error

theorem quiet_countParseError : Quiet countParseError :=
  fun _ _ _ hI _ => Proc.within_modify hI trivial

theorem quiet_removeObfuscation (txid : Txid) (pushed : Element) :
    Quiet (removeObfuscation lib txid pushed) := by
  cases pushed with
  | opcode code => exact quiet_pure _
  | data bytes =>
    simp only [removeObfuscation]
    cases lib.decipher txid bytes with
    | bytes data => exact quiet_pure _
    | refused => exact quiet_pure _
    | throws error => exact quiet_content error

theorem quiet_readChunks (lane nextTxId : String)
    (chunk : Wire.TxIn → Except String (Option (List UInt8))) (ins : List Wire.TxIn) :
    ∀ n, Quiet (readChunks lane nextTxId chunk n ins) := by
  induction ins with
  | nil => exact fun n => quiet_pure _
  | cons input ins ih =>
    intro n
    unfold readChunks
    cases chunk input with
    | error error => exact quiet_bind quiet_countParseError (fun _ => quiet_content _)
    | ok data => exact quiet_bind (ih (n + 1)) (fun rest => quiet_pure _)

/-- A carrier that cannot be read is content. -/
theorem quiet_readCarrier (tx : Reveal) (elements : List Element) :
    Quiet (readCarrier lib net tx elements) := by
  unfold readCarrier
  split
  · next code pushed =>
    refine quiet_ite ?_ (quiet_pure _)
    unfold readOpReturnCarrier
    refine quiet_bind (quiet_removeObfuscation tx.firstInputTx pushed) (fun found => ?_)
    cases found.bind behindMagic with
    | none => exact quiet_pure _
    | some content =>
      refine quiet_ite ?_ (quiet_ite ?_ ?_)
      · exact quiet_bind (quiet_readChunks _ _ _ tx.ins 0) (fun _ => quiet_pure _)
      · exact quiet_bind (quiet_readChunks _ _ _ tx.ins 0) (fun _ => quiet_pure _)
      · exact quiet_pure _
  · refine quiet_ite ?_ (quiet_pure _)
    split
    · next pubkey1 pubkey2 =>
      unfold readMultisignCarrier
      refine quiet_bind (quiet_removeObfuscation tx.firstInputTx _) (fun found => ?_)
      cases found.bind behindMagic with
      | none => exact quiet_pure _
      | some content => exact quiet_pure _
    · exact quiet_pure _
  · exact quiet_pure _

theorem quiet_decompilePayload (envelopeCarrier : Bool) (payload : Payload) :
    Quiet (decompilePayload lib envelopeCarrier payload) := by
  unfold decompilePayload
  refine quiet_ite (quiet_pure _) (quiet_bind (quiet_ofLibrary _) (fun decompiled => ?_))
  match decompiled with
  | none | some [] => exact quiet_pure _
  | some (.data action :: rest) => exact quiet_pure _
  | some (.opcode code :: rest) =>
    exact quiet_ite (quiet_bind quiet_countParseError (fun _ => quiet_pure _)) (quiet_pure _)

theorem Quiet.classified {m : Steps α} (h : Quiet m) :
    Classified env near start m (fun _ => True) :=
  h env _ _ (fun _ hI => hI) (fun _ hF => hF.blames env near)

theorem classified_content {Q : α → Prop} (message : String) :
    Classified env near start (throw (.content message) : Steps α) Q :=
  Proc.within_throw ((Fault.unmarked_content message).blames env near)

theorem classified_ofDatabase {answer : DbAnswer α}
    (hfails : ∀ error, answer = .failed error → DatabaseFails env) :
    Classified env near start (ofDatabase answer) (fun _ => True) := by
  cases answer with
  | answers a => exact Proc.within_pure trivial
  | failed error => exact Proc.within_throw ⟨nofun, fun _ => hfails error rfl⟩

theorem classified_bind {R : α → Prop} {m : Steps α} {f : α → Steps β} {Q : β → Prop}
    (hm : Classified env near start m R) (hf : ∀ a, R a → Classified env near start (f a) Q) :
    Classified env near start (m >>= f) Q :=
  Proc.within_bind hm hf

/-- Where the scan has seen chunks, they were funded by the first input. -/
def FundedByFirst (firstInputTx : Txid) (funding : Option Txid) : Prop :=
  ∀ txid ∈ funding, txid = firstInputTx

theorem fundedByFirst_add {firstInputTx : Txid} {scan : Scan}
    (h : FundedByFirst firstInputTx scan.p2shFundingTxId) (carrier : Carrier) :
    FundedByFirst firstInputTx (scan.add firstInputTx carrier).p2shFundingTxId := by
  unfold Scan.add
  by_cases hfunded : carrier.funded = true
  · simp only [hfunded, if_true]
    intro txid htxid
    exact (Option.some.inj htxid).symm
  · simp only [hfunded, Bool.false_eq_true, if_false]
    exact h

theorem captureOutputAddress_funding (openDispenserAddresses : String → Bool) (n : ℕ)
    (o : Wire.TxOut) (scan : Scan) :
    (scan.captureOutputAddress lib openDispenserAddresses n o).p2shFundingTxId =
      scan.p2shFundingTxId := by
  unfold Scan.captureOutputAddress
  cases addressOf lib o.script with
  | none => rfl
  | some address =>
    by_cases hopen : openDispenserAddresses address = true
    · simp [hopen]
    · simp [hopen]

theorem classified_scanOutputs (tx : Reveal) (openDispenserAddresses : String → Bool)
    (outs : List Wire.TxOut) :
    ∀ (n : ℕ) (scan : Scan), FundedByFirst tx.firstInputTx scan.p2shFundingTxId →
      Classified env near start (scanOutputs lib net tx openDispenserAddresses n outs scan)
        (fun scan' => FundedByFirst tx.firstInputTx scan'.p2shFundingTxId) := by
  induction outs with
  | nil => exact fun n scan h => Proc.within_pure h
  | cons o outs ih =>
    intro n scan h
    refine classified_bind (quiet_ofLibrary _).classified (fun decompiled _ => ?_)
    refine classified_bind (quiet_readCarrier tx _).classified (fun carrier _ => ?_)
    refine ih (n + 1) _ (fundedByFirst_add ?_ carrier)
    rw [captureOutputAddress_funding]
    exact h

/-- Only the database may mark what noting a key throws. -/
theorem classified_capturePubkey (keyInput : Option Wire.TxIn) (source : Option String) :
    Classified env near start (capturePubkey lib keyInput source) (fun _ => True) := by
  unfold capturePubkey
  split
  · next source input =>
    refine classified_bind (quiet_ofLibrary _).classified (fun extracted _ => ?_)
    cases extracted with
    | none => exact Proc.within_pure trivial
    | some pubkey =>
      refine classified_bind (Proc.within_read (Q := fun env' => env' = env) rfl) ?_
      intro env' henv'
      subst henv'
      refine classified_bind (classified_ofDatabase (fun error h => .inl ⟨_, _, h⟩)) ?_
      intro known _
      cases known with
      | none => exact Proc.within_pure trivial
      | some addressId =>
        refine classified_bind (classified_ofDatabase (fun error h => .inr (.inl ⟨_, _, h⟩))) ?_
        intro has _
        refine Proc.within_ite (fun _ => Proc.within_pure trivial) (fun _ => ?_)
        refine classified_bind (classified_ofDatabase
          (fun error h => .inr (.inr ⟨_, _, _, h⟩))) (fun inserted _ => ?_)
        refine Proc.within_ite (fun _ => ?_) (fun _ => Proc.within_pure trivial)
        refine classified_bind (R := fun _ => True) ?_ (fun _ _ => Proc.within_pure trivial)
        exact Proc.within_modify (fun _ h => h) trivial
  · exact Proc.within_pure trivial

/-! ## Section 3: Lookups -/

/-- A lookup of an id that is near: the node's failure alone is marked. -/
theorem classified_fetchTransaction (what : String) {txid : Txid} (hnear : near txid) :
    Classified env near start (fetchTransaction lib what txid) (Served lib env txid) := by
  have hfetch : Classified env near start (fetchRaw what txid)
      (fun bytes => ∃ n, env.getRawTransaction n txid = .raw bytes) := by
    unfold fetchRaw
    refine classified_bind (Proc.within_read (Q := fun env' => env' = env) rfl) (fun env' henv' => ?_)
    subst henv'
    refine classified_bind Proc.within_get (fun trace _ => ?_)
    refine classified_bind (R := fun _ => True) ?_ (fun _ _ => ?_)
    · exact Proc.within_modify (fun t h => h.ask hnear) trivial
    · have hcount : Classified env' near start (modify (fun t : Trace =>
          { t with rpcErrors := t.rpcErrors + 1 }) : Steps Unit) (fun _ => True) :=
        Proc.within_modify (fun _ h => h) trivial
      cases hanswer : env'.getRawTransaction trace.asked.length txid with
      | raw bytes => exact Proc.within_pure ⟨_, hanswer⟩
      | failed error =>
        refine classified_bind hcount (fun _ _ => ?_)
        exact Proc.within_throw ⟨fun _ => ⟨txid, hnear, _, .inr ⟨error, hanswer⟩⟩, nofun⟩
      | empty =>
        refine classified_bind hcount (fun _ _ => ?_)
        exact Proc.within_throw ⟨fun _ => ⟨txid, hnear, _, .inl hanswer⟩, nofun⟩
  unfold fetchTransaction
  refine classified_bind hfetch (fun bytes hbytes => ?_)
  obtain ⟨n, hbytes⟩ := hbytes
  cases hdecode : lib.transactionFromHex bytes with
  | ok tx => exact Proc.within_pure ⟨n, bytes, hbytes, hdecode⟩
  | error error => exact classified_content error

/-- Everything a transaction spends from is near. -/
def InputsNear (near : Txid → Prop) (tx : Wire.Transaction) : Prop :=
  ∀ txid, SpendsFrom tx.ins txid → near txid

theorem inputsNear_head {tx : Wire.Transaction} {input : Wire.TxIn} {ins : List Wire.TxIn}
    (h : InputsNear near tx) (hins : tx.ins = input :: ins) (hne : input.hash ≠ COINBASE_PREV_TXID) :
    near input.hash :=
  h input.hash ⟨hne, input, hins ▸ List.mem_cons_self, rfl⟩

theorem classified_fetchCommitFundingOutput {tx : Wire.Transaction} (h : InputsNear near tx) :
    Classified env near start (fetchCommitFundingOutput lib tx) (fun _ => True) := by
  unfold fetchCommitFundingOutput
  cases hins : tx.ins with
  | nil => exact classified_content _
  | cons input ins =>
    refine Proc.within_ite (fun _ => classified_content _) (fun hne => ?_)
    refine classified_bind (classified_fetchTransaction _ (inputsNear_head h hins hne)) ?_
    exact fun _ _ => Proc.within_pure trivial

theorem classified_getSourceFromOutput {txid : Txid} (hnear : near txid)
    (hnext : ∀ tx, Served lib env txid tx → InputsNear near tx) (outputIndex : UInt32)
    (blockHeight : Option Int) :
    Classified env near start (getSourceFromOutput lib net txid outputIndex blockHeight)
      (fun _ => True) := by
  unfold getSourceFromOutput
  refine classified_bind (classified_fetchTransaction _ hnear) (fun outputTransaction hserved => ?_)
  cases outputTransaction.outs[outputIndex.toNat]? with
  | none => exact Proc.within_pure trivial
  | some output =>
    refine Proc.within_ite (fun _ => ?_) (fun _ => Proc.within_pure trivial)
    refine classified_bind (classified_fetchCommitFundingOutput (hnext _ hserved)) ?_
    exact fun _ _ => Proc.within_pure trivial

theorem classified_getEnvelopeSourceFromCommit {tx : Wire.Transaction} (h : InputsNear near tx) :
    Classified env near start (getEnvelopeSourceFromCommit lib tx) (fun _ => True) := by
  unfold getEnvelopeSourceFromCommit
  cases hins : tx.ins with
  | nil => exact Proc.within_pure trivial
  | cons input ins =>
    refine Proc.within_ite (fun _ => classified_content _) (fun hne => ?_)
    refine classified_bind (classified_fetchTransaction _ (inputsNear_head h hins hne)) ?_
    exact fun _ _ => Proc.within_pure trivial

theorem classified_findFundingFeeOutputs {txid : Txid} (hnear : near txid)
    (prefetched : Option Wire.Transaction) :
    Classified env near start (findFundingFeeOutputs lib net txid prefetched) (fun _ => True) := by
  unfold findFundingFeeOutputs
  cases net.feeDestination.filter (!·.isEmpty) with
  | none => exact Proc.within_pure trivial
  | some destination =>
    refine classified_bind (R := fun _ => True) ?_ (fun _ _ => Proc.within_pure trivial)
    cases prefetched with
    | some tx => exact Proc.within_pure trivial
    | none =>
      exact (classified_fetchTransaction _ hnear).weaken (fun _ _ => trivial) (fun _ h => h)

/-! ## Section 4: The parse -/

/-- What arbitration settles about lookups: the commit has been served, and only the
    first input funds. -/
structure Lookups (lib : Library) (env : Surroundings) (firstInputTx : Txid) (arb : Arbitrated) :
    Prop where
  commit : ∀ tx ∈ arb.envelopeCommitTransaction, Served lib env firstInputTx tx
  funded : FundedByFirst firstInputTx arb.p2shFundingTxId

theorem classified_arbitrateEnvelope {firstInputTx : Txid} (hnear : near firstInputTx)
    (blockHeight : Option Int) (envelopes : List (ℕ × List UInt8)) {scan : Scan}
    (hscan : FundedByFirst firstInputTx scan.p2shFundingTxId) :
    Classified env near start (arbitrateEnvelope lib net blockHeight firstInputTx envelopes scan)
      (Lookups lib env firstInputTx) := by
  match envelopes with
  | [] => exact Proc.within_pure ⟨nofun, hscan⟩
  | (index, payload) :: more =>
    refine Proc.within_ite (fun _ => ?_) (fun _ => ?_)
    · exact classified_bind quiet_countParseError.classified (fun _ _ => Proc.within_pure ⟨nofun, nofun⟩)
    · refine classified_bind (classified_fetchTransaction _ hnear) (fun commit hserved => ?_)
      refine Proc.within_pure ⟨fun tx htx => ?_, fun txid htxid => (Option.some.inj htxid).symm⟩
      rw [← Option.some.inj htx]
      exact hserved

theorem classified_resolveSource {input : Wire.TxIn} (hnear : near input.hash)
    (hnext : ∀ tx, Served lib env input.hash tx → InputsNear near tx) (blockHeight : Option Int)
    {arb : Arbitrated} (harb : Lookups lib env input.hash arb) (getSource : Bool) :
    Classified env near start (resolveSource lib net blockHeight input arb getSource)
      (fun _ => True) := by
  unfold resolveSource
  refine Proc.within_ite (fun _ => ?_) (fun _ => Proc.within_pure trivial)
  cases hcommit : arb.envelopeCommitTransaction with
  | some commit =>
    have hserved := harb.commit commit hcommit
    refine classified_bind (classified_getEnvelopeSourceFromCommit (hnext commit hserved)) ?_
    exact fun _ _ => Proc.within_pure trivial
  | none =>
    refine classified_bind (classified_getSourceFromOutput hnear hnext _ _) ?_
    exact fun _ _ => Proc.within_pure trivial

theorem classified_resolveXChainTransaction {input : Wire.TxIn} (hnear : near input.hash)
    (hnext : ∀ tx, Served lib env input.hash tx → InputsNear near tx) (blockHeight : Option Int)
    (scan : Scan) {arb : Arbitrated} (harb : Lookups lib env input.hash arb) :
    Classified env near start (resolveXChainTransaction lib net blockHeight input scan arb)
      (fun _ => True) := by
  unfold resolveXChainTransaction
  refine classified_bind (quiet_decompilePayload _ _).classified (fun payload _ => ?_)
  refine classified_bind (classified_resolveSource hnear hnext _ harb _) (fun resolved _ => ?_)
  refine classified_bind (classified_capturePubkey _ _) (fun sourcePubkey _ => ?_)
  refine classified_bind (R := fun _ => True) ?_ (fun _ _ => Proc.within_pure trivial)
  unfold attributeFundingFees
  cases hfunding : arb.p2shFundingTxId with
  | none => exact Proc.within_pure trivial
  | some fundingTxId =>
    rw [harb.funded fundingTxId hfunding]
    refine classified_bind (classified_findFundingFeeOutputs hnear _) ?_
    exact fun _ _ => Proc.within_pure trivial

end Steps

/-- **Every lookup is near, and every mark has a failed lookup behind it.** -/
theorem classified_parseTransaction (lib : Library) (net : Network)
    (openDispenserAddresses : String → Bool) (blockHeight : Option Int) (tx : BlockTransaction)
    (env : Surroundings) (start : Trace) :
    Classified env (Near lib env tx.ins) start
      (parseTransaction lib net openDispenserAddresses blockHeight tx) (fun _ => True) := by
  unfold parseTransaction
  cases hins : tx.ins with
  | nil => exact Proc.within_pure trivial
  | cons input ins =>
    refine Proc.within_ite (fun _ => Proc.within_pure trivial) (fun hne => ?_)
    have hspends : SpendsFrom (input :: ins) input.hash := ⟨hne, input, List.mem_cons_self, rfl⟩
    have hnear : Near lib env (input :: ins) input.hash := .inl hspends
    have hnext : ∀ first, Served lib env input.hash first →
        InputsNear (Near lib env (input :: ins)) first :=
      fun first hserved txid htxid => .inr ⟨input.hash, first, hspends, hserved, htxid⟩
    refine classified_bind (R := fun _ => True) ?_ (fun _ _ => Proc.within_pure trivial)
    unfold parseXChainTransaction parseBeside
    refine classified_bind (classified_scanOutputs _ openDispenserAddresses tx.outs 0 Scan.start
      nofun) (fun scan hscan => ?_)
    refine classified_bind (classified_arbitrateEnvelope hnear blockHeight _ hscan) ?_
    intro arb harb
    exact classified_resolveXChainTransaction hnear hnext blockHeight scan harb

end XChainDecoder.Parse
