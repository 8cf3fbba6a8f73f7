import XChainDecoder.Parse.Payload

/-! # Who sent it, and what its funding transaction paid

    A transaction is attributed to the address of the output its first input spends.
    Where that output is a reveal (P2SH, or P2WSH) its own address is that of a script,
    so the walk goes one hop back, to the output the commit's first input spends. An
    envelope goes the same hop back from its commit.

    Every lookup marks a failed fetch and nothing else: what comes of the bytes that were
    fetched is content. -/

namespace XChainDecoder.Parse

open Script (Element)

/-! ## Section 1: The walk back -/

inductive CarrierType where
  | p2sh
  | p2wsh
deriving DecidableEq, Repr

/-- `revealCarrierType`. -/
def revealCarrierType (script : List UInt8) : Option CarrierType :=
  if script.length = 23 ∧ script[0]? = some 0xa9 ∧ script[1]? = some 0x14 ∧ script[22]? = some 0x87
  then some .p2sh
  else if script.length = 34 ∧ script[0]? = some 0x00 ∧ script[1]? = some 0x20 then some .p2wsh
  else none

/-- `p2wshWalkbackEnabled`. -/
def p2wshWalkbackEnabled (net : Network) (blockHeight : Option Int) : Bool :=
  net.supportsSegwit || !activeAt net.p2wshWalkbackSegwitGate blockHeight

/-- Whether the walk goes on from an output of this script. -/
def walksBack (net : Network) (blockHeight : Option Int) (script : List UInt8) : Bool :=
  revealCarrierType script = some .p2sh ||
    (revealCarrierType script = some .p2wsh && p2wshWalkbackEnabled net blockHeight)

/-- The address of an output that may be missing; there the read of its script throws
    and is caught. -/
def sourceOf (lib : Library) (output : Option Wire.TxOut) : Option String :=
  output.bind (fun o => addressOf lib o.script)

/-- What reading `ins[0]` of a transaction without inputs throws. -/
def missingInput : Fault :=
  .content "Cannot read properties of undefined (reading 'index')"

/-- `fetchCommitFundingOutput`: the output the first input of the commit spends. -/
def fetchCommitFundingOutput (lib : Library) (outputTransaction : Wire.Transaction) :
    Steps (Option Wire.TxOut) :=
  match outputTransaction.ins with
  | []         => throw missingInput
  | input :: _ =>
      if input.hash = COINBASE_PREV_TXID then
        throw (.content ("getSourceFromOutput: carrier output is paid by a coinbase; " ++
          "no funding output to walk back to"))
      else do
        let prevTransaction ← fetchTransaction lib "commit-funding tx" input.hash
        pure prevTransaction.outs[input.index.toNat]?

/-- `resolveSourceFromOutput`: the source, and the transaction of the first hop. -/
def getSourceFromOutput (lib : Library) (net : Network) (txid : Txid) (outputIndex : UInt32)
    (blockHeight : Option Int) : Steps (Option String × Wire.Transaction) := do
  let outputTransaction ← fetchTransaction lib "prevout tx" txid
  match outputTransaction.outs[outputIndex.toNat]? with
  | none        => pure (none, outputTransaction)
  | some output =>
      if walksBack net blockHeight output.script then do
        let funding ← fetchCommitFundingOutput lib outputTransaction
        pure (sourceOf lib funding, outputTransaction)
      else pure (sourceOf lib (some output), outputTransaction)

/-- `getEnvelopeSourceFromCommit`. -/
def getEnvelopeSourceFromCommit (lib : Library) (commitTransaction : Wire.Transaction) :
    Steps (Option String) :=
  match commitTransaction.ins with
  | []         => pure none
  | input :: _ =>
      if input.hash = COINBASE_PREV_TXID then
        throw (.content ("getEnvelopeSourceFromCommit: envelope commit is a coinbase; " ++
          "no funding output to walk back to"))
      else do
        let prevTransaction ← fetchTransaction lib "commit-funding tx" input.hash
        pure (sourceOf lib prevTransaction.outs[input.index.toNat]?)

/-- `fetchEnvelopeCommitTransaction`. -/
def fetchEnvelopeCommitTransaction (lib : Library) (commitTxId : Txid) : Steps Wire.Transaction :=
  fetchTransaction lib "envelope commit tx" commitTxId

/-! ## Section 2: Fee outputs of the funding transaction -/

/-- The outputs of a transaction with their positions, from one on. -/
def indexed : ℕ → List Wire.TxOut → List (ℕ × Wire.TxOut)
  | _, []        => []
  | n, o :: outs => (n, o) :: indexed (n + 1) outs

/-- An output as it is stored. -/
def storedOutput (vout : ℕ) (address : String) (o : Wire.TxOut) : Output :=
  ⟨vout, some address, o.value.toNat⟩

/-- The outputs of a transaction that pay an address. -/
def outputsPaying (lib : Library) (destination : String) (outs : List Wire.TxOut) : List Output :=
  (indexed 0 outs).filterMap (fun o =>
    if addressOf lib o.2.script = some destination then some (storedOutput o.1 destination o.2)
    else none)

/-- The funding transaction; one fetched before is not fetched again. -/
def fundingTransaction (lib : Library) (fundingTxId : Txid)
    (prefetchedFundingTx : Option Wire.Transaction) : Steps Wire.Transaction :=
  match prefetchedFundingTx with
  | some fundingTx => pure fundingTx
  | none           => fetchTransaction lib "funding tx" fundingTxId

/-- `findFundingFeeOutputs`. -/
def findFundingFeeOutputs (lib : Library) (net : Network) (fundingTxId : Txid)
    (prefetchedFundingTx : Option Wire.Transaction) : Steps (List Output) :=
  match net.feeDestination.filter (!·.isEmpty) with
  | none             => pure []
  | some destination => do
      let fundingTx ← fundingTransaction lib fundingTxId prefetchedFundingTx
      pure (outputsPaying lib destination fundingTx.outs)

/-! ## Section 3: The key an input exposes -/

/-- Whether bytes have the length of a public key. -/
def hasKeyLength (bytes : List UInt8) : Bool := bytes.length = 33 || bytes.length = 65

/-- `extractPubkeyFromInput`: the second witness item or else the last push of the
    script, if it has the length of a key. -/
def extractPubkeyFromInput (lib : Library) (input : Wire.TxIn) :
    Except String (Option (List UInt8)) :=
  match input.witness[1]?.filter hasKeyLength with
  | some pubkey => .ok (some pubkey)
  | none        =>
      if input.script = [] then .ok none
      else
        (lib.decompile input.script).map (fun decompiled =>
          decompiled.bind (fun elements =>
            if elements.length < 2 then none
            else (elements.getLast?.bind Element.data?).filter hasKeyLength))

/-- `capturePubkey` on the block lane: the key of the source, noted where its address is
    known already and has none. -/
def capturePubkey (lib : Library) (keyInput : Option Wire.TxIn) (source : Option String) :
    Steps (Option String) :=
  match source, keyInput with
  | some source, some input => do
      match ← ofLibrary (extractPubkeyFromInput lib input) with
      | none        => pure none
      | some pubkey => do
          let env ← read
          match ← ofDatabase (env.getAddressId source) with
          | none           => pure (some (hex pubkey))
          | some addressId =>
              if ← ofDatabase (env.hasPubkey addressId) then pure (some (hex pubkey))
              else do
                if ← ofDatabase (env.insertPubkey addressId (hex pubkey)) then
                  modify (fun t : Trace => { t with pubkeys := t.pubkeys ++ [(source, hex pubkey)] })
                pure (some (hex pubkey))
  | _, _ => pure none

end XChainDecoder.Parse
