import XChainDecoder.Parse.Source

/-! # Scanning the outputs

    One pass over the outputs of a transaction sorts those with an address into
    dispenses and payments, and reads the carriers: an OP_RETURN under the magic word,
    which holds a payload or points to chunks in the inputs, and bare multisig outputs
    whose two keys are enciphered payload. -/

namespace XChainDecoder.Parse

open Script (Element)

/-! ## Section 1: Reading a carrier -/

def OP_RETURN : ℕ := 0x6a
def OP_CHECKMULTISIG : ℕ := 0xae

/-- `P2SH_BUFFER`: p2sh. -/
def P2SH_MARKER : List UInt8 := [0x70, 0x32, 0x73, 0x68]

/-- `P2WSH_BUFFER`: p2wsh. -/
def P2WSH_MARKER : List UInt8 := [0x70, 0x32, 0x77, 0x73, 0x68]

/-- The comparison of an element with an opcode by `==`. -/
def looselyEquals (lib : Library) : Element → ℕ → Bool
  | .opcode code, n => code.toNat = n
  | .data bytes,  n => lib.looseNumber bytes = some n

/-- `removeObfuscation`: an opcode is nothing to decipher. -/
def removeObfuscation (lib : Library) (txid : Txid) : Element → Steps (Option (List UInt8))
  | .opcode _   => pure none
  | .data bytes =>
      match lib.decipher txid bytes with
      | .bytes data   => pure (some data)
      | .refused      => pure none
      | .throws error => throw (.content error)

/-- The first element of a redeem script, if it is data. -/
def firstPush (lib : Library) (redeemScript : List UInt8) : Except String (Option (List UInt8)) :=
  (lib.decompile redeemScript).map (fun decompiled =>
    (decompiled.bind List.head?).bind Element.data?)

/-- The chunk of a P2SH input: in the redeem script behind two other elements. -/
def p2shChunk (lib : Library) (input : Wire.TxIn) : Except String (Option (List UInt8)) := do
  match ((← lib.decompile input.script).bind (fun elements => elements[2]?)).bind Element.data? with
  | none              => pure none
  | some redeemScript => firstPush lib redeemScript

/-- The chunk of a P2WSH input; without segwit there is no witness to read. -/
def p2wshChunk (lib : Library) (net : Network) (input : Wire.TxIn) :
    Except String (Option (List UInt8)) :=
  if net.supportsSegwit then
    match input.witness[2]? with
    | none              => pure none
    | some redeemScript => firstPush lib redeemScript
  else pure none

/-- `readP2shChunks` and `readP2wshChunks`: the chunks of the inputs, from position `n`
    on. An input that cannot be read fails the whole transaction. -/
def readChunks (lane nextTxId : String) (chunk : Wire.TxIn → Except String (Option (List UInt8))) :
    ℕ → List Wire.TxIn → Steps (List UInt8)
  | _, []           => pure []
  | n, input :: ins =>
      match chunk input with
      | .error error => do
          countParseError
          throw (.content (lane ++ " data extraction failed for input " ++ Nat.repr n ++ " of tx " ++
            nextTxId ++ ": " ++ error))
      | .ok data     => do
          let rest ← readChunks lane nextTxId chunk (n + 1) ins
          pure (data.getD [] ++ rest)

def readP2shChunks (lib : Library) (nextTxId : String) (ins : List Wire.TxIn) :
    Steps (List UInt8) :=
  readChunks "P2SH" nextTxId (p2shChunk lib) 0 ins

def readP2wshChunks (lib : Library) (net : Network) (nextTxId : String) (ins : List Wire.TxIn) :
    Steps (List UInt8) :=
  readChunks "P2WSH" nextTxId (p2wshChunk lib net) 0 ins

/-- What one output carries. -/
structure Carrier where
  data       : List UInt8
  recognized : Bool
  /-- chunks: a commit transaction may have paid a fee -/
  funded     : Bool
deriving DecidableEq, Repr

def Carrier.none : Carrier := ⟨[], false, false⟩

/-- The transaction at hand, as far as reading its carriers needs it. -/
structure Reveal where
  nextTxId     : String
  firstInputTx : Txid
  ins          : List Wire.TxIn

/-- What stands behind the magic word. -/
def behindMagic (data : List UInt8) : Option (List UInt8) :=
  if data.take MAGIC_WORD.length = MAGIC_WORD then some (data.drop MAGIC_WORD.length) else .none

/-- `readOpReturnCarrier`. -/
def readOpReturnCarrier (lib : Library) (net : Network) (tx : Reveal) (pushed : Element) :
    Steps Carrier := do
  match (← removeObfuscation lib tx.firstInputTx pushed).bind behindMagic with
  | .none        => pure Carrier.none
  | some content =>
      if content = P2SH_MARKER then do
        let data ← readP2shChunks lib tx.nextTxId tx.ins
        pure ⟨data, true, true⟩
      else if content = P2WSH_MARKER then do
        let data ← readP2wshChunks lib net tx.nextTxId tx.ins
        pure ⟨data, true, true⟩
      else pure ⟨content, true, false⟩

/-- `readMultisignCarrier`: the keys without their first byte. -/
def readMultisignCarrier (lib : Library) (tx : Reveal) (pubkey1 pubkey2 : List UInt8) :
    Steps Carrier := do
  match (← removeObfuscation lib tx.firstInputTx (.data (pubkey1.drop 1 ++ pubkey2.drop 1))).bind
    behindMagic with
  | .none        => pure Carrier.none
  | some content => pure ⟨content, true, false⟩

/-- The carrier among the elements of an output script. -/
def readCarrier (lib : Library) (net : Network) (tx : Reveal) (decompiledScript : List Element) :
    Steps Carrier :=
  match decompiledScript with
  | [code, pushed] =>
      if looselyEquals lib code OP_RETURN then readOpReturnCarrier lib net tx pushed
      else pure Carrier.none
  | [_, first, second, _, _, code] =>
      if looselyEquals lib code OP_CHECKMULTISIG then
        match first, second with
        | .data pubkey1, .data pubkey2 => readMultisignCarrier lib tx pubkey1 pubkey2
        | _, _                         => pure Carrier.none
      else pure Carrier.none
  | _ => pure Carrier.none

/-! ## Section 2: The scan -/

/-- What the scan has collected. -/
structure Scan where
  dataBuffer             : List UInt8
  getSource              : Bool
  p2shFundingTxId        : Option Txid
  otherCarrierRecognized : Bool
  dispenseOutputs        : List Output
  paymentOutputs         : List Output
deriving DecidableEq

def Scan.start : Scan := ⟨[], false, none, false, [], []⟩

/-- `captureOutputAddress`. -/
def Scan.captureOutputAddress (lib : Library) (openDispenserAddresses : String → Bool)
    (txOutputIndex : ℕ) (nextOutput : Wire.TxOut) (scan : Scan) : Scan :=
  match addressOf lib nextOutput.script with
  | none               => scan
  | some outputAddress =>
      if openDispenserAddresses outputAddress then
        { scan with
          dispenseOutputs := scan.dispenseOutputs ++ [storedOutput txOutputIndex outputAddress nextOutput]
          getSource := true }
      else
        { scan with
          paymentOutputs := scan.paymentOutputs ++ [storedOutput txOutputIndex outputAddress nextOutput] }

/-- Add what an output carries. -/
def Scan.add (firstInputTxId : Txid) (carrier : Carrier) (scan : Scan) : Scan :=
  { scan with
    dataBuffer := scan.dataBuffer ++ carrier.data
    otherCarrierRecognized := scan.otherCarrierRecognized || carrier.recognized
    p2shFundingTxId := if carrier.funded then some firstInputTxId else scan.p2shFundingTxId }

/-- `scanOutputs`, from position `n` on. -/
def scanOutputs (lib : Library) (net : Network) (tx : Reveal) (openDispenserAddresses : String → Bool) :
    ℕ → List Wire.TxOut → Scan → Steps Scan
  | _, [],                 scan => pure scan
  | n, nextOutput :: outs, scan => do
      let decompiledScript ← ofLibrary (lib.decompile nextOutput.script)
      let carrier ← readCarrier lib net tx (decompiledScript.getD [])
      scanOutputs lib net tx openDispenserAddresses (n + 1) outs
        ((scan.captureOutputAddress lib openDispenserAddresses n nextOutput).add tx.firstInputTx carrier)

/-! ## Section 3: The outputs of its own -/

/-- The outputs with an address, each as it is stored. -/
def addressable (lib : Library) : ℕ → List Wire.TxOut → List Output
  | _, []        => []
  | n, o :: outs =>
      (addressOf lib o.script).toList.map (fun address => storedOutput n address o) ++
        addressable lib (n + 1) outs

/-- Whether an output pays an open dispenser. -/
def paysDispenser (openDispenserAddresses : String → Bool) (o : Output) : Bool :=
  o.destinationAddress.any openDispenserAddresses

/-- A scan keeps what was collected before it and adds every output with an address to
    the dispenses or to the payments. Only what it carries depends on anything but the
    outputs. -/
theorem scanOutputs_outputs (lib : Library) (net : Network) (tx : Reveal)
    (openDispenserAddresses : String → Bool) (env : Surroundings) :
    ∀ (outs : List Wire.TxOut) (n : ℕ) (scan : Scan),
      Proc.Within env (fun _ => True) (scanOutputs lib net tx openDispenserAddresses n outs scan)
        (fun scan' =>
          scan'.dispenseOutputs = scan.dispenseOutputs ++
            (addressable lib n outs).filter (paysDispenser openDispenserAddresses) ∧
          scan'.paymentOutputs = scan.paymentOutputs ++
            (addressable lib n outs).filter (fun o => !paysDispenser openDispenserAddresses o))
        (fun _ => True) := by
  intro outs
  induction outs with
  | nil =>
    intro n scan
    exact Proc.within_pure (by simp [addressable])
  | cons o outs ih =>
    intro n scan
    refine Proc.within_bind (Proc.within_true _) (fun decompiled _ => ?_)
    refine Proc.within_bind (Proc.within_true _) (fun carrier _ => ?_)
    refine (ih (n + 1) _).weaken ?_ (fun _ _ => trivial)
    intro scan' h
    obtain ⟨hdispense, hpayment⟩ := h
    simp only [Scan.add] at hdispense hpayment
    rw [hdispense, hpayment]
    cases haddress : addressOf lib o.script with
    | none => simp [Scan.captureOutputAddress, addressable, haddress]
    | some address =>
      by_cases hopen : openDispenserAddresses address = true
      · simp [Scan.captureOutputAddress, addressable, haddress, hopen, paysDispenser, storedOutput]
      · simp [Scan.captureOutputAddress, addressable, haddress, hopen, paysDispenser, storedOutput]

end XChainDecoder.Parse
