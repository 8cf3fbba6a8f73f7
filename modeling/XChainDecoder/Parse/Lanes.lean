import XChainDecoder.Parse.Arbitration

/-! # One transaction, two lanes

    A transaction is parsed when it is pending and again when it is confirmed: at
    another height, against other open dispensers, and with other answers of the node
    and the database. The pending parse notes no keys.

    The carriers are read from the transaction alone, so two parses that both find an
    action find the same one (`parseTransaction_agree`): only the envelope depends on
    the height, and an envelope is accepted only where the outputs carry nothing. -/

namespace XChainDecoder.Parse

open Script (Element)

variable {lib : Library} {net : Network}

/-! ## Section 1: The carriers -/

theorem agree_ofLibrary {α : Type} (call : Except String α) :
    Proc.Agree (ofLibrary call) (ofLibrary call) (fun a b => a = b) := by
  cases call with
  | ok a => exact Proc.agree_pure rfl
  | error error => exact Proc.agree_throw _ _

theorem agree_removeObfuscation (txid : Txid) (pushed : Element) :
    Proc.Agree (removeObfuscation lib txid pushed) (removeObfuscation lib txid pushed)
      (fun a b => a = b) := by
  cases pushed with
  | opcode code => exact Proc.agree_pure rfl
  | data bytes =>
    simp only [removeObfuscation]
    cases lib.decipher txid bytes with
    | bytes data => exact Proc.agree_pure rfl
    | refused => exact Proc.agree_pure rfl
    | throws error => exact Proc.agree_throw _ _

theorem agree_readChunks (lane nextTxId : String)
    (chunk : Wire.TxIn → Except String (Option (List UInt8))) (ins : List Wire.TxIn) :
    ∀ n, Proc.Agree (readChunks lane nextTxId chunk n ins) (readChunks lane nextTxId chunk n ins)
      (fun a b => a = b) := by
  induction ins with
  | nil => exact fun n => Proc.agree_pure rfl
  | cons input ins ih =>
    intro n
    unfold readChunks
    cases chunk input with
    | error error =>
      refine Proc.agree_bind (R := fun _ _ => True) (fun _ _ _ _ _ _ _ _ _ _ => trivial) ?_
      exact fun _ _ _ => Proc.agree_throw _ _
    | ok data =>
      refine Proc.agree_bind (ih (n + 1)) (fun rest rest' h => ?_)
      rw [h]
      exact Proc.agree_pure rfl

/-- A carrier is read from the transaction alone. -/
theorem agree_readCarrier (tx : Reveal) (elements : List Element) :
    Proc.Agree (readCarrier lib net tx elements) (readCarrier lib net tx elements)
      (fun a b => a = b) := by
  unfold readCarrier
  split
  · next code pushed =>
    refine Proc.agree_ite ?_ (Proc.agree_pure rfl)
    unfold readOpReturnCarrier
    refine Proc.agree_bind (agree_removeObfuscation tx.firstInputTx pushed) (fun found found' h => ?_)
    subst h
    cases found.bind behindMagic with
    | none => exact Proc.agree_pure rfl
    | some content =>
      refine Proc.agree_ite ?_ (Proc.agree_ite ?_ (Proc.agree_pure rfl))
      · refine Proc.agree_bind (agree_readChunks _ _ _ tx.ins 0) (fun data data' h => ?_)
        rw [h]
        exact Proc.agree_pure rfl
      · refine Proc.agree_bind (agree_readChunks _ _ _ tx.ins 0) (fun data data' h => ?_)
        rw [h]
        exact Proc.agree_pure rfl
  · refine Proc.agree_ite ?_ (Proc.agree_pure rfl)
    split
    · next pubkey1 pubkey2 =>
      unfold readMultisignCarrier
      refine Proc.agree_bind (agree_removeObfuscation tx.firstInputTx _) (fun found found' h => ?_)
      subst h
      cases found.bind behindMagic with
      | none => exact Proc.agree_pure rfl
      | some content => exact Proc.agree_pure rfl
    · exact Proc.agree_pure rfl
  · exact Proc.agree_pure rfl

/-! ## Section 2: The scan and the arbitration -/

theorem captureOutputAddress_data (openDispenserAddresses : String → Bool) (n : ℕ)
    (o : Wire.TxOut) (scan : Scan) :
    (scan.captureOutputAddress lib openDispenserAddresses n o).dataBuffer = scan.dataBuffer := by
  unfold Scan.captureOutputAddress
  cases addressOf lib o.script with
  | none => rfl
  | some address =>
    by_cases hopen : openDispenserAddresses address = true
    · simp [hopen]
    · simp [hopen]

/-- What the outputs carry does not depend on the dispensers. -/
theorem agree_scanOutputs (tx : Reveal) (openDispensers openDispensers' : String → Bool)
    (outs : List Wire.TxOut) : ∀ (n : ℕ) (scan scan' : Scan), scan.dataBuffer = scan'.dataBuffer →
      Proc.Agree (scanOutputs lib net tx openDispensers n outs scan)
        (scanOutputs lib net tx openDispensers' n outs scan')
        (fun a b => a.dataBuffer = b.dataBuffer) := by
  induction outs with
  | nil => exact fun n scan scan' h => Proc.agree_pure h
  | cons o outs ih =>
    intro n scan scan' h
    refine Proc.agree_bind (agree_ofLibrary _) (fun decompiled decompiled' hread => ?_)
    subst hread
    refine Proc.agree_bind (agree_readCarrier tx _) (fun carrier carrier' hcarrier => ?_)
    subst hcarrier
    refine ih (n + 1) _ _ ?_
    unfold Scan.add
    dsimp only
    rw [captureOutputAddress_data, captureOutputAddress_data, h]

/-- What arbitration may leave: nothing, what the outputs carry where no envelope is
    seen, or the payload of the only envelope where they carry nothing. -/
inductive Leaves (lib : Library) (ins : List Wire.TxIn) (carried : List UInt8) : List UInt8 → Prop where
  | nothing : Leaves lib ins carried []
  | outputs : Leaves lib ins carried carried
  | envelope (payload : List UInt8) : carried = [] → detectEnvelopes lib 0 ins = [(0, payload)] →
      Leaves lib ins carried payload

theorem within_arbitrateEnvelope_leaves (blockHeight : Option Int) (txid : Txid)
    (ins : List Wire.TxIn) (scan : Scan) (env : Surroundings) :
    Proc.Within env (fun _ => True)
      (arbitrateEnvelope lib net blockHeight txid (envelopeInputs lib net blockHeight ins) scan)
      (fun arb => Leaves lib ins scan.dataBuffer arb.dataBuffer) (fun _ => True) := by
  cases hseen : envelopeInputs lib net blockHeight ins with
  | nil => exact Proc.within_pure .outputs
  | cons first more =>
    obtain ⟨index, payload⟩ := first
    refine Proc.within_ite (fun _ => ?_) (fun haccept => ?_)
    · exact Proc.within_bind (Proc.within_true _) (fun _ _ => Proc.within_pure .nothing)
    · refine Proc.within_bind (Proc.within_true _) (fun commit _ => Proc.within_pure ?_)
      simp only [otherCarrierPresent, Bool.or_eq_true, Bool.not_eq_true', List.isEmpty_eq_false_iff,
        decide_eq_true_eq, not_or, not_not] at haccept
      obtain ⟨⟨rfl, hother⟩, rfl⟩ := haccept
      refine .envelope payload hother.1.1 ?_
      unfold envelopeInputs at hseen
      split at hseen
      · exact hseen
      · cases hseen

/-- Two payloads arbitration may leave of one transaction are the same. -/
theorem Leaves.unique {ins : List Wire.TxIn} {carried payload payload' : List UInt8}
    (h : Leaves lib ins carried payload) (h' : Leaves lib ins carried payload')
    (hne : payload ≠ []) (hne' : payload' ≠ []) : payload = payload' := by
  cases h with
  | nothing => exact absurd rfl hne
  | outputs =>
    cases h' with
    | nothing => exact absurd rfl hne'
    | outputs => rfl
    | envelope _ hnone _ => exact absurd hnone hne
  | envelope _ hnone honly =>
    cases h' with
    | nothing => exact absurd rfl hne'
    | outputs => exact absurd hnone hne'
    | envelope _ _ honly' =>
      rw [honly] at honly'
      cases honly'
      rfl

/-! ## Section 3: The action -/

theorem actionOf_nil : actionOf lib [] = ([], none) := rfl

/-- Two parses of a transaction under its first input that both find an action find the
    same one. -/
theorem agree_parseXChainTransaction (openDispensers openDispensers' : String → Bool)
    (height height' : Option Int) (tx : BlockTransaction) (input : Wire.TxIn) :
    Proc.Agree (parseXChainTransaction lib net openDispensers height tx input)
      (parseXChainTransaction lib net openDispensers' height' tx input)
      (fun parsed parsed' => parsed.data ≠ [] → parsed'.data ≠ [] → parsed.data = parsed'.data) := by
  unfold parseXChainTransaction parseBeside
  refine Proc.agree_bind
    (agree_scanOutputs _ openDispensers openDispensers' tx.outs 0 Scan.start Scan.start rfl) ?_
  intro scan scan' hscan
  refine Proc.agree_bind
    (Proc.agree_of_within (within_arbitrateEnvelope_leaves height input.hash tx.ins scan)
      (within_arbitrateEnvelope_leaves height' input.hash tx.ins scan')) ?_
  intro arb arb' hleaves
  refine (Proc.agree_of_within (within_resolve_action lib net height input scan arb)
    (within_resolve_action lib net height' input scan' arb')).weaken ?_
  intro parsed parsed' hparsed hne hne'
  have hdata : parsed.data = (actionOf lib arb.dataBuffer).1 := congrArg Prod.fst hparsed.1.1
  have hdata' : parsed'.data = (actionOf lib arb'.dataBuffer).1 := congrArg Prod.fst hparsed.2.1
  rw [← hscan] at hleaves
  have hsame : arb.dataBuffer = arb'.dataBuffer := by
    refine hleaves.1.unique hleaves.2 (fun hnil => hne ?_) (fun hnil => hne' ?_)
    · rw [hdata, hnil, actionOf_nil]
    · rw [hdata', hnil, actionOf_nil]
  rw [hdata, hdata', hsame]

/-- **One action.** Whatever the heights, the open dispensers and the answers are, two
    parses of one transaction that both find an action find the same one. -/
theorem parseTransaction_agree (openDispensers openDispensers' : String → Bool)
    (height height' : Option Int) (tx : BlockTransaction) :
    Proc.Agree (parseTransaction lib net openDispensers height tx)
      (parseTransaction lib net openDispensers' height' tx)
      (fun result result' => ∀ parsed ∈ result, ∀ parsed' ∈ result',
        parsed.data ≠ [] → parsed'.data ≠ [] → parsed.data = parsed'.data) := by
  unfold parseTransaction
  cases tx.ins with
  | nil => exact Proc.agree_pure nofun
  | cons input ins =>
    refine Proc.agree_ite (Proc.agree_pure nofun) ?_
    refine Proc.agree_bind
      (agree_parseXChainTransaction openDispensers openDispensers' height height' tx input) ?_
    intro parsed parsed' h
    refine Proc.agree_pure ?_
    intro found hfound found' hfound'
    rw [← Option.some.inj hfound, ← Option.some.inj hfound']
    exact h

/-- The surroundings of a pending parse: it notes no key, as if no address were known. -/
def Surroundings.mempoolLane (env : Surroundings) : Surroundings :=
  { env with getAddressId := fun _ => .answers none }

/-- A pending parse that reads a key leaves the state as it was. -/
theorem capturePubkey_mempoolLane (env : Surroundings) (keyInput : Option Wire.TxIn)
    (source : Option String) (trace : Trace) :
    (capturePubkey lib keyInput source env.mempoolLane trace).2 = trace := by
  unfold capturePubkey
  split
  · next source input =>
    cases extractPubkeyFromInput lib input with
    | error error => rfl
    | ok extracted =>
      cases extracted with
      | none => rfl
      | some pubkey => rfl
  · rfl

end XChainDecoder.Parse
