import XChainDecoder.Parse.Carriers

/-! # Parsing a transaction

    `parseTransaction` scans the outputs, decides between the carriers it found and an
    envelope revealed by an input, reads the payload, and then asks who sent it, which
    key he exposed, and what his funding transaction paid.

    An envelope that comes with another carrier, with a second envelope, or in any input
    but the first is refused: the action is dropped, the outputs stay. -/

namespace XChainDecoder.Parse

open Script (Element)

/-! ## Section 1: Arbitration -/

def FUNDING_VOUT_BASE : ℕ := 1000000
def ENVELOPE_MAX_PAYLOAD : ℕ := 390000

/-- The envelopes of a transaction, each with the position of its input, from `n` on. -/
def detectEnvelopes (lib : Library) : ℕ → List Wire.TxIn → List (ℕ × List UInt8)
  | _, []           => []
  | n, input :: ins =>
      (detectEnvelopeWitness lib input.witness).toList.map (fun payload => (n, payload)) ++
        detectEnvelopes lib (n + 1) ins

/-- The envelopes the height lets the parser see. -/
def envelopeInputs (lib : Library) (net : Network) (blockHeight : Option Int)
    (ins : List Wire.TxIn) : List (ℕ × List UInt8) :=
  if net.envelopeActiveAt blockHeight then detectEnvelopes lib 0 ins else []

/-- Whether the scan found a carrier beside the envelope. -/
def otherCarrierPresent (net : Network) (blockHeight : Option Int) (scan : Scan) : Bool :=
  !scan.dataBuffer.isEmpty || scan.p2shFundingTxId.isSome ||
    (net.envelopeCarrierRecognitionActiveAt blockHeight && scan.otherCarrierRecognized)

/-- What arbitration leaves: the payload, where it was funded, and the commit of an
    envelope that carries it. -/
structure Arbitrated where
  dataBuffer                : List UInt8
  p2shFundingTxId           : Option Txid
  envelopeCommitTransaction : Option Wire.Transaction

/-- Whether an envelope carries the action. -/
def Arbitrated.envelopeCarrier (arb : Arbitrated) : Bool := arb.envelopeCommitTransaction.isSome

/-- `arbitrateEnvelope`. -/
def arbitrateEnvelope (lib : Library) (net : Network) (blockHeight : Option Int)
    (firstInputTxId : Txid) (envelopes : List (ℕ × List UInt8)) (scan : Scan) : Steps Arbitrated :=
  match envelopes with
  | []                      => pure ⟨scan.dataBuffer, scan.p2shFundingTxId, none⟩
  | (index, payload) :: more =>
      if !more.isEmpty || otherCarrierPresent net blockHeight scan || index ≠ 0 then do
        countParseError
        pure ⟨[], none, none⟩
      else do
        let commit ← fetchEnvelopeCommitTransaction lib firstInputTxId
        pure ⟨payload, some firstInputTxId, some commit⟩

/-! ## Section 2: Resolution -/

/-- A parse result, with what carried the action. -/
structure ParsedTransaction extends ParseResult where
  envelope : Bool
deriving DecidableEq, Repr

/-- The funding outputs under their own output numbers. -/
def remapFunding (outputs : List Output) : List Output :=
  outputs.map (fun o => { o with vout := FUNDING_VOUT_BASE + o.vout })

/-- `attributeFundingFees`: what is added to the payments. The transaction the source was
    read from is the commit, and is not fetched again. -/
def attributeFundingFees (lib : Library) (net : Network) (arb : Arbitrated)
    (sourceTransaction : Option Wire.Transaction) : Steps (List Output) :=
  match arb.p2shFundingTxId with
  | none             => pure []
  | some fundingTxId => do
      let feeOutputs ← findFundingFeeOutputs lib net fundingTxId
        (arb.envelopeCommitTransaction <|> sourceTransaction)
      pure (remapFunding feeOutputs)

/-- The source, and the transaction it was read from where that is the first hop. -/
def resolveSource (lib : Library) (net : Network) (blockHeight : Option Int) (input : Wire.TxIn)
    (arb : Arbitrated) (getSource : Bool) : Steps (Option String × Option Wire.Transaction) :=
  if getSource then
    match arb.envelopeCommitTransaction with
    | some commit => do
        let source ← getEnvelopeSourceFromCommit lib commit
        pure (source, none)
    | none        => do
        let resolved ← getSourceFromOutput lib net input.hash input.index blockHeight
        pure (resolved.1, some resolved.2)
  else pure (none, none)

/-- The input that spent the source's output. -/
def keyInput (input : Wire.TxIn) (arb : Arbitrated) : Option Wire.TxIn :=
  match arb.envelopeCommitTransaction with
  | some commit => commit.ins.head?
  | none        => some input

/-- `resolveXChainTransaction`. -/
def resolveXChainTransaction (lib : Library) (net : Network) (blockHeight : Option Int)
    (input : Wire.TxIn) (scan : Scan) (arb : Arbitrated) : Steps ParsedTransaction := do
  let payload ← decompilePayload lib arb.envelopeCarrier
    ⟨arb.dataBuffer, none, scan.getSource, arb.dataBuffer.length⟩
  let resolved ← resolveSource lib net blockHeight input arb payload.getSource
  let sourcePubkey ← capturePubkey lib (keyInput input arb) resolved.1
  let feeOutputs ← attributeFundingFees lib net arb resolved.2
  pure {
    data := payload.dataBuffer
    compiledDataLength := payload.compiledDataLength
    rawData := payload.rawData
    source := resolved.1
    sourcePubkey := sourcePubkey
    destination := none
    dispenseOutputs := scan.dispenseOutputs
    paymentOutputs := scan.paymentOutputs ++ feeOutputs
    payloadCeiling := if arb.envelopeCarrier then ENVELOPE_MAX_PAYLOAD else MAX_ACTION_DATA_LENGTH
    envelope := arb.envelopeCarrier }

/-! ## Section 3: The parse -/

/-- A transaction of a block, with its id as it is logged. -/
structure BlockTransaction extends Wire.Transaction where
  txid : String

/-- The parse of a transaction under its first input, given the envelopes it may see. -/
def parseBeside (lib : Library) (net : Network) (openDispenserAddresses : String → Bool)
    (blockHeight : Option Int) (tx : BlockTransaction) (input : Wire.TxIn)
    (envelopes : List (ℕ × List UInt8)) : Steps ParsedTransaction := do
  let scan ← scanOutputs lib net ⟨tx.txid, input.hash, tx.ins⟩ openDispenserAddresses 0 tx.outs
    Scan.start
  let arb ← arbitrateEnvelope lib net blockHeight input.hash envelopes scan
  resolveXChainTransaction lib net blockHeight input scan arb

/-- `parseXChainTransaction`. -/
def parseXChainTransaction (lib : Library) (net : Network) (openDispenserAddresses : String → Bool)
    (blockHeight : Option Int) (tx : BlockTransaction) (input : Wire.TxIn) :
    Steps ParsedTransaction :=
  parseBeside lib net openDispenserAddresses blockHeight tx input
    (envelopeInputs lib net blockHeight tx.ins)

/-- `parseTransaction`: nothing for a transaction without inputs or a coinbase. -/
def parseTransaction (lib : Library) (net : Network) (openDispenserAddresses : String → Bool)
    (blockHeight : Option Int) (tx : BlockTransaction) : Steps (Option ParsedTransaction) :=
  match tx.ins with
  | []         => pure none
  | input :: _ =>
      if input.hash = COINBASE_PREV_TXID then pure none
      else do
        let parsed ← parseXChainTransaction lib net openDispenserAddresses blockHeight tx input
        pure (some parsed)

end XChainDecoder.Parse
