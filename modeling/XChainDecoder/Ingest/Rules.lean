import Mathlib.Data.List.Sort
import XChainDecoder.World
import XChainDecoder.Db.Dispensers

/-! # What a block says

    The decisions of a block pass that read no table: which outputs a decoded
    transaction has, whether it is worth a row, what the row stores, and the
    times and floors a block is ingested under.

    `Rules` holds what is decided by the text of a transaction or by the network
    the decoder runs for: the parse of a transaction, the canonical text of an
    action, the commands in it, and the activation times of the gates. They are
    the same for every run of one deployment. -/

namespace XChainDecoder

/-! ## Section 1: A parsed transaction -/

/-- An output a transaction may be stored with. -/
structure Output where
  vout               : Nat
  destinationAddress : Option String
  amount             : Int
deriving DecidableEq, Repr

structure ParseResult where
  data               : List UInt8
  compiledDataLength : Nat
  rawData            : Option (List UInt8)
  source             : Option String
  sourcePubkey       : Option String
  destination        : Option String
  dispenseOutputs    : List Output
  paymentOutputs     : List Output
  payloadCeiling     : Nat
deriving DecidableEq, Repr

/-- What `parseTransaction` comes to once its lookups have answered. -/
inductive Parsed where
  /-- not a transaction of the protocol -/
  | nothing
  | result (r : ParseResult)
  /-- it throws, after it may have recorded the key an address exposed -/
  | throws (error : String) (exposed : Option (String × String))
deriving DecidableEq, Repr

/-- A dispenser create, as `collectDispenserCreates` collects it. -/
structure DispenserCreate where
  address       : Option String
  sourceAddress : Option String
  oracleAddress : Option String
  expiration    : Int
deriving DecidableEq, Repr

/-- The oracle addresses one command asks for. -/
inductive OracleRequest where
  | none
  /-- a create names its oracle -/
  | named (address : String)
  /-- a refill: every open dispenser of the source -/
  | everyOpen
  /-- a refill below the gate: the top-ranked open dispenser -/
  | topOpen
deriving DecidableEq, Repr

/-- The rules of one deployment. -/
structure Rules where
  protocolTimeMtp             : Bool
  cancelGraceActivation       : Option Int
  cancelGraceParentActivation : Option Int
  purgeGraceActivation        : Option Int
  expiryRealignActivation     : Option Int
  addressIdCollapseActivation : Option Int
  feeDestination              : Option String
  /-- `parseTransaction`, on the addresses of the open dispensers -/
  parseTransaction : RawTransaction → (String → Bool) → Int → Parsed
  /-- the text of the error where a transaction has no id -/
  idError : RawTransaction → String
  /-- the canonical text of an action, and whether its name is known -/
  canonicalAction : List UInt8 → String × Bool
  captureCommands : String → Int → List String
  oracleRequest   : String → Int → OracleRequest
  /-- the valid creates among the commands of a transaction of this source -/
  dispenserCreates : List String → Option String → Int → List DispenserCreate
  /-- the source and the new expiration of an edit -/
  dispenserEdit : String → Option String → Int → Option (String × Int)
  /-- a row of this content can never be inserted -/
  rejectsRow : Hash → Option String → Option String → String → Option (List UInt8) → Bool

/-! ## Section 2: The storage gate -/

def MAX_ACTION_DATA_LENGTH : Nat := 8192

/-- `hasStorableContent`: an attributable action or a possible dispense. -/
def hasStorableContent (r : ParseResult) : Bool :=
  (!r.data.isEmpty && r.source.isSome) || !r.dispenseOutputs.isEmpty

structure StoredRecord where
  skip    : Bool
  data    : String
  rawData : Option (List UInt8)
deriving DecidableEq, Repr

/-- A refused action: the outputs are stored without it, if there are any. -/
def refusedAction (r : ParseResult) : StoredRecord :=
  ⟨r.dispenseOutputs.isEmpty && r.paymentOutputs.isEmpty, "", none⟩

/-- `buildStoredActionRecord`. -/
def buildStoredActionRecord (rules : Rules) (r : ParseResult) : StoredRecord :=
  if r.data.isEmpty then ⟨false, "", r.rawData⟩
  else
    let payloadCeiling :=
      if r.payloadCeiling = 0 then MAX_ACTION_DATA_LENGTH else r.payloadCeiling
    if payloadCeiling < r.compiledDataLength then refusedAction r
    else if (rules.canonicalAction r.data).2 then
      ⟨false, (rules.canonicalAction r.data).1, r.rawData⟩
    else refusedAction r

/-- A record is skipped only where nothing would be left to store. -/
theorem outputs_nil_of_skip {rules : Rules} {r : ParseResult}
    (h : (buildStoredActionRecord rules r).skip = true) :
    r.dispenseOutputs = [] ∧ r.paymentOutputs = [] := by
  have hrefused : (refusedAction r).skip = true → r.dispenseOutputs = [] ∧ r.paymentOutputs = [] := by
    intro hskip
    simpa [refusedAction] using hskip
  unfold buildStoredActionRecord at h
  by_cases hdata : r.data.isEmpty = true
  · simp [hdata] at h
  · rw [if_neg hdata] at h
    by_cases hlong : (if r.payloadCeiling = 0 then MAX_ACTION_DATA_LENGTH else r.payloadCeiling) <
        r.compiledDataLength
    · rw [if_pos hlong] at h
      exact hrefused h
    · rw [if_neg hlong] at h
      by_cases hknown : (rules.canonicalAction r.data).2 = true
      · simp [hknown] at h
      · rw [if_neg hknown] at h
        exact hrefused h

/-- Whether `text` starts with `head`. -/
def startsWith (head text : String) : Bool := head.toList.isPrefixOf text.toList

/-- The payment outputs `capturePaymentOutputs` stores: all of them for a
    COINPAY, else those that pay the fee address or an oracle. -/
def capturedPayments (rules : Rules) (commands oracles : List String) (outputs : List Output) :
    List Output :=
  outputs.filter (fun o =>
    commands.any (startsWith "COINPAY|") ||
    (rules.feeDestination.isSome && o.destinationAddress = rules.feeDestination) ||
    o.destinationAddress.any (fun address => !address.isEmpty && address ∈ oracles))

/-! ## Section 3: Dispenser registrations -/

/-- Fold one candidate into the registration of its key. -/
def mergeRegistration (old new : DispenserCreate) : DispenserCreate :=
  { old with
    expiration    := if old.expiration < new.expiration then new.expiration else old.expiration
    oracleAddress :=
      if old.oracleAddress.any (!·.isEmpty) then old.oracleAddress
      else if new.oracleAddress.any (!·.isEmpty) then new.oracleAddress
      else old.oracleAddress }

/-- Add one candidate to the registrations collected so far, by key. -/
def addRegistration {κ : Type} [DecidableEq κ] (keyOf : String → κ) (address : String)
    (new : DispenserCreate) : List (κ × DispenserCreate) → List (κ × DispenserCreate)
  | []                => [(keyOf address, { new with
      oracleAddress := new.oracleAddress.filter (!·.isEmpty) })]
  | (key, old) :: rest =>
      if key = keyOf address then (key, mergeRegistration old new) :: rest
      else (key, old) :: addRegistration keyOf address new rest

/-- The addresses a list of creates names, blank ones left out. -/
def createAddresses (candidates : List DispenserCreate) : List String :=
  candidates.filterMap (fun c => c.address.filter (!·.isEmpty))

/-- `collapseRegistrationsByKey`: one registration for each key, in the order of
    first appearance. -/
def collapseRegistrationsByKey {κ : Type} [DecidableEq κ] (keyOf : String → κ)
    (candidates : List DispenserCreate) : List DispenserCreate :=
  (candidates.foldl (fun collapsed candidate =>
    match candidate.address.filter (!·.isEmpty) with
    | none         => collapsed
    | some address => addRegistration keyOf address candidate collapsed) []).map Prod.snd

/-! ## Section 4: Times and floors -/

def DISPENSER_CANCEL_GRACE_SECONDS : Int := 3600
def MEDIAN_TIME_SPAN : Nat := 11

/-- A gate is active from its activation time on; one without a time never is. -/
def gateActive (activation : Option Int) (blockTime : Int) : Bool :=
  activation.any (fun time => time ≤ blockTime)

/-- A gate that is active stays active. -/
theorem gateActive_mono {activation : Option Int} {time time' : Int} (hle : time ≤ time')
    (h : gateActive activation time = true) : gateActive activation time' = true := by
  cases activation with
  | none => simp [gateActive] at h
  | some a =>
    simp only [gateActive, Option.any_some, decide_eq_true_eq] at h ⊢
    exact h.trans hle

/-- `medianTimePast` of the block times below, newest first. -/
def medianTimePast (previousBlockTimes : List Int) : Option Int :=
  let times := ((previousBlockTimes.take MEDIAN_TIME_SPAN).filter (fun time => 0 < time)).insertionSort
    (fun a b => a ≤ b)
  times[times.length / 2]?

/-- `protocolTime`. -/
def protocolTime (rules : Rules) (rawBlockTime : Int) (previousBlockTimes : List Int) : Int :=
  if rules.protocolTimeMtp then
    match medianTimePast previousBlockTimes with
    | none     => rawBlockTime
    | some mtp => min mtp rawBlockTime
  else rawBlockTime

/-- How many block times `resolveBlockTimeContext` reads. -/
def historySpan (rules : Rules) (rawBlockTime : Int) : Nat :=
  (if rules.protocolTimeMtp then MEDIAN_TIME_SPAN else 0) +
    (if gateActive rules.cancelGraceParentActivation rawBlockTime then 1 else 0)

structure BlockTimeContext where
  rawBlockTime       : Int
  protocolBlockTime  : Int
  parentProtocolTime : Option Int
deriving DecidableEq, Repr

/-- The times of a block, from the raw time and the block times below it. -/
def blockTimeContext (rules : Rules) (rawBlockTime : Int) (previousBlockTimes : List Int) :
    BlockTimeContext where
  rawBlockTime       := rawBlockTime
  protocolBlockTime  :=
    protocolTime rules rawBlockTime (previousBlockTimes.take MEDIAN_TIME_SPAN)
  parentProtocolTime :=
    match previousBlockTimes with
    | []              => none
    | parent :: older => some (protocolTime rules parent older)

/-- `cancelGraceFloor`. -/
def cancelGraceFloor (rules : Rules) (blockTime : Int) (parentProtocolTime : Option Int) :
    Option Int :=
  if gateActive rules.cancelGraceActivation blockTime then
    let anchor :=
      if gateActive rules.cancelGraceParentActivation blockTime then
        match parentProtocolTime with
        | none        => blockTime
        | some parent => min blockTime parent
      else blockTime
    some (anchor - DISPENSER_CANCEL_GRACE_SECONDS)
  else none

/-- `purgeGraceFloor`. -/
def purgeGraceFloor (rules : Rules) (blockTime : Int) : Option Int :=
  if gateActive rules.purgeGraceActivation blockTime then
    some (blockTime - DISPENSER_CANCEL_GRACE_SECONDS)
  else none

end XChainDecoder
