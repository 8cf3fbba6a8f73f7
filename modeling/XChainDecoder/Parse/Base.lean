import XChainDecoder.Lib.Process
import XChainDecoder.Lib.Script
import XChainDecoder.Wire.Transaction
import XChainDecoder.Ingest.Rules

/-! # What parsing a transaction rests on

    A parse reads scripts through a Bitcoin library, deciphers payloads, asks the node
    for transactions that earlier ones spend from, and may note a public key in the
    database. `Library` is the code below the parser, `Network` the deployment it runs
    for, `Surroundings` what the node and the database are going to answer, and `Trace`
    what the parse did on the way. A parse is a process over the last two that ends
    with a value or with a `Fault`.

    Of an error only the two marks matter to the block loop: a lookup that failed is
    retried for ever, anything else a bounded number of times. -/

namespace XChainDecoder.Parse

open Script (Element)

/-! ## Section 1: Ids and texts -/

/-- The id of a transaction, in the byte order of the wire. -/
abbrev Txid : Type := Vector UInt8 32

/-- `COINBASE_PREV_TXID`. -/
def COINBASE_PREV_TXID : Txid := Vector.replicate 32 0

def hexDigit (n : ℕ) : Char :=
  if n < 10 then Char.ofNat (48 + n) else Char.ofNat (87 + n)

/-- `toString('hex')`. -/
def hex (bytes : List UInt8) : String :=
  String.ofList (bytes.flatMap (fun b => [hexDigit (b.toNat / 16), hexDigit (b.toNat % 16)]))

/-- The id as it is printed and asked for: the hex of the reversed bytes. -/
def Txid.hex (txid : Txid) : String := Parse.hex txid.toList.reverse

/-! ## Section 2: Below the parser -/

/-- What deciphering comes to. -/
inductive Deciphered where
  | bytes (data : List UInt8)
  /-- one of the two OpenSSL errors that stand for data that is not ours -/
  | refused
  | throws (error : String)
deriving DecidableEq, Repr

/-- The code below the parser. -/
structure Library where
  /-- `bitcoin.script.decompile`: it may throw, and it answers null for a script whose
      last push is cut short -/
  decompile : List UInt8 → Except String (Option (List Element))
  /-- the number a buffer converts to where it is compared with one by `==` -/
  looseNumber : List UInt8 → Option ℕ
  /-- `bitcoin.address.fromOutputScript` on this network, `none` where it throws -/
  fromOutputScript : List UInt8 → Option String
  /-- `aes-128-ctr` under the key and counter cut from a transaction id -/
  decipher : Txid → List UInt8 → Deciphered
  /-- `transactionFromHex` of the block decoder -/
  transactionFromHex : List UInt8 → Except String Wire.Transaction

/-- The deployment. A height that is not set never comes. -/
structure Network where
  envelopeRecognitionHeight        : Option Int
  envelopeCarrierRecognitionHeight : Option Int
  /-- false only where the network declares it -/
  supportsSegwit                   : Bool
  p2wshWalkbackSegwitGate          : Option Int
  feeDestination                   : Option String
deriving DecidableEq, Repr

/-- A rule is active from its height on, and never for a block without a height. -/
def activeAt (activationHeight blockHeight : Option Int) : Bool :=
  activationHeight.any (fun activation => blockHeight.any (fun height => activation ≤ height))

def Network.envelopeActiveAt (net : Network) (blockHeight : Option Int) : Bool :=
  activeAt net.envelopeRecognitionHeight blockHeight

def Network.envelopeCarrierRecognitionActiveAt (net : Network) (blockHeight : Option Int) : Bool :=
  activeAt net.envelopeCarrierRecognitionHeight blockHeight

/-! ## Section 3: Around the parser -/

/-- The node's answer to a transaction id. -/
inductive RawAnswer where
  | failed (error : String)
  /-- resolved to nothing -/
  | empty
  | raw (bytes : List UInt8)
deriving DecidableEq, Repr

/-- A database call inside the block transaction; a failure is marked. -/
inductive DbAnswer (α : Type) where
  | failed (error : String)
  | answers (a : α)
deriving DecidableEq, Repr

/-- What the outside answers; the node by the number of the request. -/
structure Surroundings where
  getRawTransaction : ℕ → Txid → RawAnswer
  getAddressId : String → DbAnswer (Option ℕ)
  hasPubkey    : ℕ → DbAnswer Bool
  /-- false where the row is refused for its content -/
  insertPubkey : ℕ → String → DbAnswer Bool

/-- What a parse did. -/
structure Trace where
  asked       : List Txid
  /-- the keys it noted, each with the address it noted it for -/
  pubkeys     : List (String × String)
  parseErrors : ℕ
  rpcErrors   : ℕ
deriving DecidableEq, Repr

def Trace.start : Trace := ⟨[], [], 0, 0⟩

/-- An error on its way to the block loop. -/
structure Fault where
  message          : String
  rpcLookupFailure : Bool
  dbLookupFailure  : Bool
deriving DecidableEq, Repr

/-- An error without a mark: it is the same on every instance. -/
def Fault.content (message : String) : Fault := ⟨message, false, false⟩

def Fault.rpc (message : String) : Fault := ⟨message, true, false⟩

def Fault.db (message : String) : Fault := ⟨message, false, true⟩

/-- Whether the block loop may take the error for content. -/
def Fault.Unmarked (e : Fault) : Prop := e.rpcLookupFailure = false ∧ e.dbLookupFailure = false

theorem Fault.unmarked_content (message : String) : (Fault.content message).Unmarked := ⟨rfl, rfl⟩

/-- A step of a parse. -/
abbrev Steps (α : Type) : Type := Proc Surroundings Trace Fault α

/-- A call of the library. -/
def ofLibrary {α : Type} : Except String α → Steps α
  | .ok a        => pure a
  | .error error => throw (.content error)

/-- A call of the database. -/
def ofDatabase {α : Type} : DbAnswer α → Steps α
  | .answers a    => pure a
  | .failed error => throw (.db error)

def countParseError : Steps Unit := modify (fun t => { t with parseErrors := t.parseErrors + 1 })

/-- The body all lookups of a confirmed transaction share: an answer that is missing is
    a failed lookup, and only the lookup itself is marked. -/
def fetchRaw (what : String) (txid : Txid) : Steps (List UInt8) := do
  let env ← read
  let trace : Trace ← get
  modify (fun t : Trace => { t with asked := t.asked ++ [txid] })
  match env.getRawTransaction trace.asked.length txid with
  | .raw bytes    => pure bytes
  | .failed error => do
      modify (fun t : Trace => { t with rpcErrors := t.rpcErrors + 1 })
      throw (.rpc error)
  | .empty        => do
      modify (fun t : Trace => { t with rpcErrors := t.rpcErrors + 1 })
      throw (.rpc ("empty getrawtransaction result for confirmed " ++ what ++ " " ++ txid.hex))

/-- Fetch and decode; the decoding stands outside the mark. -/
def fetchTransaction (lib : Library) (what : String) (txid : Txid) : Steps Wire.Transaction := do
  let bytes ← fetchRaw what txid
  ofLibrary (lib.transactionFromHex bytes)

/-! ## Section 4: Addresses of outputs -/

/-- `isFutureSegwitScript`: a witness program of version 2 to 16. -/
def isFutureSegwitScript (script : List UInt8) : Bool :=
  match script with
  | version :: pushLen :: _ =>
      4 ≤ script.length && script.length ≤ 42 &&
        (0x52 ≤ version.toNat && version.toNat ≤ 0x60) &&
        (2 ≤ pushLen.toNat && pushLen.toNat ≤ 40 && script.length = pushLen.toNat + 2)
  | _ => false

/-- The address of an output script, none where it has no representable one. -/
def addressOf (lib : Library) (script : List UInt8) : Option String :=
  if isFutureSegwitScript script then none
  else (lib.fromOutputScript script).filter (!·.isEmpty)

end XChainDecoder.Parse
