import XChainDecoder.Parse.Outputs

/-! # One action, one carrier

    A transaction may name its action in an envelope, in an OP_RETURN, in chunks or in
    multisig outputs. From the height on at which envelopes are seen, an envelope carries
    the action only alone, and only in the first input; any doubt drops the action.

    `Carries` says so on the transaction itself: which envelopes its inputs reveal, and
    which of its outputs are carriers. The outputs it pays do not depend on any of it. -/

namespace XChainDecoder.Parse

open Script (Element)

/-! ## Section 1: Carriers among the outputs -/

/-- The enciphered bytes of the elements of a carrier: what an OP_RETURN pushes, or the
    keys of a bare multisig without their first bytes. -/
def enciphered (lib : Library) : List Element → Option (List UInt8)
  | [code, .data pushed] => if looselyEquals lib code OP_RETURN then some pushed else none
  | [_, .data pubkey1, .data pubkey2, _, _, code] =>
      if looselyEquals lib code OP_CHECKMULTISIG then some (pubkey1.drop 1 ++ pubkey2.drop 1)
      else none
  | _ => none

/-- Elements that decipher to the magic word and anything or nothing behind it. -/
def IsCarrier (lib : Library) (txid : Txid) (elements : List Element) : Prop :=
  ∃ bytes data, enciphered lib elements = some bytes ∧ lib.decipher txid bytes = .bytes data ∧
    data.take MAGIC_WORD.length = MAGIC_WORD

/-- An output whose script is a carrier. -/
def CarrierOutput (lib : Library) (txid : Txid) (o : Wire.TxOut) : Prop :=
  ∃ elements, lib.decompile o.script = .ok (some elements) ∧ IsCarrier lib txid elements

/-- What a carrier contributes says that it is one; nothing else contributes. -/
structure Faithful (isCarrier : Prop) (carrier : Carrier) : Prop where
  recognized : carrier.recognized = true ↔ isCarrier
  data       : carrier.data ≠ [] → carrier.recognized = true
  funded     : carrier.funded = true → carrier.recognized = true

/-- The scan has recognized a carrier exactly if there is one, and has collected nothing
    without. -/
structure ScanFaithful (isCarrier : Prop) (scan : Scan) : Prop where
  recognized : scan.otherCarrierRecognized = true ↔ isCarrier
  data       : scan.dataBuffer ≠ [] → scan.otherCarrierRecognized = true
  funded     : scan.p2shFundingTxId.isSome = true → scan.otherCarrierRecognized = true

theorem ScanFaithful.captureOutputAddress {isCarrier : Prop} {scan : Scan}
    (h : ScanFaithful isCarrier scan) (lib : Library) (openDispenserAddresses : String → Bool) (n : ℕ)
    (o : Wire.TxOut) :
    ScanFaithful isCarrier (scan.captureOutputAddress lib openDispenserAddresses n o) := by
  unfold Scan.captureOutputAddress
  cases addressOf lib o.script with
  | none => exact h
  | some address =>
    by_cases hopen : openDispenserAddresses address = true
    · simp only [hopen, if_true]
      exact ⟨h.recognized, h.data, h.funded⟩
    · simp only [hopen, Bool.false_eq_true, if_false]
      exact ⟨h.recognized, h.data, h.funded⟩

theorem ScanFaithful.add {isCarrier isCarrier' : Prop} {scan : Scan} {carrier : Carrier}
    (h : ScanFaithful isCarrier scan) (hcarrier : Faithful isCarrier' carrier) (txid : Txid) :
    ScanFaithful (isCarrier ∨ isCarrier') (scan.add txid carrier) where
  recognized := by
    simp only [Scan.add, Bool.or_eq_true]
    exact or_congr h.recognized hcarrier.recognized
  data := by
    simp only [Scan.add, Bool.or_eq_true]
    intro hne
    by_cases hnil : scan.dataBuffer = []
    · refine .inr (hcarrier.data (fun hdata => hne ?_))
      rw [hnil, hdata]
      rfl
    · exact .inl (h.data hnil)
  funded := by
    simp only [Scan.add, Bool.or_eq_true]
    intro hsome
    by_cases hfunded : carrier.funded = true
    · exact .inr (hcarrier.funded hfunded)
    · rw [if_neg hfunded] at hsome
      exact .inl (h.funded hsome)

theorem within_ofLibrary {α : Type} (call : Except String α) (env : Surroundings) :
    Proc.Within env (fun _ => True) (ofLibrary call) (fun a => call = .ok a) (fun _ => True) := by
  cases call with
  | ok a => exact Proc.within_pure rfl
  | error error => exact Proc.within_throw (F := fun _ => True) trivial

/-- The action and the raw data in a payload. -/
def actionOf (lib : Library) (payload : List UInt8) : List UInt8 × Option (List UInt8) :=
  if payload = [] then ([], none)
  else
    match lib.decompile payload with
    | .ok (some (.data action :: rest)) => (action, rest.head?.bind Element.data?)
    | _                                 => ([], none)

theorem readPushes_action (envelopeCarrier : Bool) (action : List UInt8) (rest : List Element)
    {payload : Payload} (hraw : payload.rawData = none) :
    ((readPushes envelopeCarrier action rest payload).dataBuffer,
      (readPushes envelopeCarrier action rest payload).rawData) =
      (action, rest.head?.bind Element.data?) := by
  cases rest with
  | nil => simp [readPushes, hraw]
  | cons second rest =>
    cases hdata : second.data? with
    | none => simp [readPushes, hdata]
    | some rawData => simp [readPushes, hdata]

theorem within_decompilePayload {lib : Library} {envelopeCarrier : Bool} {payload : Payload}
    (hraw : payload.rawData = none) (env : Surroundings) :
    Proc.Within env (fun _ => True) (decompilePayload lib envelopeCarrier payload)
      (fun p => (p.dataBuffer, p.rawData) = actionOf lib payload.dataBuffer) (fun _ => True) := by
  unfold decompilePayload actionOf
  by_cases hnil : payload.dataBuffer = []
  · rw [if_pos hnil, if_pos hnil]
    exact Proc.within_pure (by rw [hnil, hraw])
  · rw [if_neg hnil, if_neg hnil]
    refine Proc.within_bind (within_ofLibrary _ env) (fun decompiled hread => ?_)
    rw [hread]
    match decompiled with
    | none | some [] => exact Proc.within_pure (by simp [hraw])
    | some (.data action :: rest) =>
      exact Proc.within_pure (readPushes_action envelopeCarrier action rest hraw)
    | some (.opcode code :: rest) =>
      refine Proc.within_ite (fun _ => ?_) (fun _ => Proc.within_pure (by simp [hraw]))
      refine Proc.within_bind (Proc.within_true _) (fun _ _ => ?_)
      exact Proc.within_pure (by simp [hraw])

/-- What resolution makes of a verdict: the action of its payload, and no fee outputs
    where nothing funds it. -/
theorem within_resolve_action (lib : Library) (net : Network) (blockHeight : Option Int)
    (input : Wire.TxIn) (scan : Scan) (arb : Arbitrated) (env : Surroundings) :
    Proc.Within env (fun _ => True) (resolveXChainTransaction lib net blockHeight input scan arb)
      (fun parsed => (parsed.data, parsed.rawData) = actionOf lib arb.dataBuffer ∧
        parsed.envelope = arb.envelopeCarrier ∧
        (arb.p2shFundingTxId = none → parsed.paymentOutputs = scan.paymentOutputs))
      (fun _ => True) := by
  unfold resolveXChainTransaction
  refine Proc.within_bind (within_decompilePayload rfl env) (fun payload hpayload => ?_)
  refine Proc.within_bind (Proc.within_true _) (fun resolved _ => ?_)
  refine Proc.within_bind (Proc.within_true _) (fun sourcePubkey _ => ?_)
  refine Proc.within_bind (R := fun fees => arb.p2shFundingTxId = none → fees = []) ?_ ?_
  · unfold attributeFundingFees
    cases arb.p2shFundingTxId with
    | none => exact Proc.within_pure (fun _ => rfl)
    | some txid =>
      exact (Proc.within_true _).weaken (fun _ _ h => absurd h (by simp)) (fun _ _ => trivial)
  · intro fees hfees
    refine Proc.within_pure ⟨hpayload, rfl, fun hnone => ?_⟩
    show scan.paymentOutputs ++ fees = scan.paymentOutputs
    rw [hfees hnone, List.append_nil]

/-! ## Section 5: Beside the same transaction without its envelopes -/

/-- The payload an envelope carries for a transaction: the only envelope, in the first
    input, and no carrier among the outputs. -/
def Carries (lib : Library) (tx : BlockTransaction) (payload : List UInt8) : Prop :=
  detectEnvelopes lib 0 tx.ins = [(0, payload)] ∧
    ∀ input ∈ tx.ins.head?, ∀ o ∈ tx.outs, ¬ CarrierOutput lib input.hash o

namespace Sample

end Sample

end XChainDecoder.Parse
