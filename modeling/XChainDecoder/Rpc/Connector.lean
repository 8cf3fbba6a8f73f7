import XChainDecoder.Capture.Batch
import XChainDecoder.Lib.Traces
import XChainDecoder.Wire.Strip

/-! # The connector to the node

    Every RPC of the decoder goes through `rpcPost`, which keeps the counters of the
    connector. Over it stand two ladders of retries, each a program of posts and pauses,
    and many of them may be under way at once, on the counters of one connector.

    What axios makes of a post is not the decoder's: any answer and any fault may come. -/

namespace XChainDecoder.Rpc

/-! ## Section 1: Answers and faults -/

/-- The error object of a JSON-RPC answer, with its code where that is a whole number;
    `shown` is its JSON text. -/
structure RpcError where
  code    : Option Int
  message : Option String
  shown   : String
deriving DecidableEq, Repr

/-- A value of a JSON answer, as far as it is looked at. -/
inductive Value where
  | text (s : List Char)
  /-- a number, boolean, object or array, with its `typeof` and whether it is truthy -/
  | other (typeof : String) (truthy : Bool)
deriving DecidableEq, Repr

def Value.truthy : Value → Bool
  | .text s    => s ≠ []
  | .other _ b => b

/-- The data of an answer; `none` is an absent member or a null one. -/
structure Body where
  error  : Option RpcError
  result : Option Value
deriving DecidableEq, Repr

/-- What a post resolves to. -/
structure Response where
  status : ℕ
  data   : Option Body
deriving DecidableEq, Repr

/-- `error.response`, with the error object of its data. -/
structure FaultResponse where
  status : ℕ
  error  : Option RpcError
deriving DecidableEq, Repr

/-- What is thrown. -/
structure Fault where
  name       : String
  message    : String
  code       : Option String
  response   : Option FaultResponse
  rpcCode    : Option Int
  rpcMessage : Option String
deriving DecidableEq, Repr

/-- `new Error(message)` -/
def Fault.plain (message : String) : Fault := ⟨"Error", message, none, none, none, none⟩

def attachRpcFields (f : Fault) (rpcCode : Option Int) (rpcMessage : Option String) : Fault :=
  if rpcCode.isNone && rpcMessage.isNone then f
  else { f with rpcCode := rpcCode, rpcMessage := rpcMessage }

/-- The text for the logs, and what the fault has become: its body is gone. -/
def sanitizeRpcError (f : Fault) : String × Fault :=
  let rpcErr := f.response.bind FaultResponse.error
  let rpcCode := rpcErr.bind RpcError.code
  let rpcMessage := rpcErr.bind RpcError.message
  let scrubbed := { f with response := f.response.map (fun r => { r with error := none }) }
  let base := if f.message ≠ "" then f.message else f.name
  (if rpcCode.isSome || rpcMessage.isSome then
      base ++ " (RPC error " ++ rpcCode.elim "unknown" toString ++ ": " ++ rpcMessage.getD "" ++ ")"
    else base,
    attachRpcFields scrubbed rpcCode rpcMessage)

def rpcResult (response : Response) (label : String) : Except Fault Value :=
  match response.data.bind Body.error with
  | some e =>
      .error (attachRpcFields (.plain (label ++ ": RPC error " ++ e.code.elim "unknown" toString ++
        ": " ++ e.message.getD e.shown)) e.code e.message)
  | none   =>
      match response.data.bind Body.result with
      | some v => .ok v
      | none   => .error (.plain label)

/-- The identity of a cause on the error built in its place. -/
def carryErrorIdentity (target : Fault) : Option Fault → Fault
  | none       => target
  | some cause =>
      attachRpcFields (if cause.code.isSome then { target with code := cause.code } else target)
        cause.rpcCode cause.rpcMessage

/-! ## Section 2: The counters -/

def CONNECTION_ERROR_CODES : List String :=
  ["ECONNREFUSED", "ECONNRESET", "ECONNABORTED", "ENOTFOUND", "EHOSTUNREACH", "ENETUNREACH",
    "ETIMEDOUT", "EAI_AGAIN", "EPIPE"]

structure Connector where
  endpoints           : List String
  activeEndpointIndex : ℕ
  connectionFailures  : ℕ
  failoverThreshold   : ℕ
  rpcErrors           : ℕ
  lastNodeOkAt        : ℕ
  lastNodeFailAt      : ℕ
deriving DecidableEq, Repr

namespace Connector

/-- The active endpoint. -/
def url (c : Connector) : Option String := c.endpoints[c.activeEndpointIndex]?

def noteConnectionFailure (c : Connector) : Connector :=
  if c.endpoints.length < 2 then c
  else if c.failoverThreshold ≤ c.connectionFailures + 1 then
    { c with
      activeEndpointIndex := (c.activeEndpointIndex + 1) % c.endpoints.length
      connectionFailures  := 0 }
  else { c with connectionFailures := c.connectionFailures + 1 }

/-- `rpcPost`, once axios has answered at `now`. -/
def rpcPost (c : Connector) (now : ℕ) : Except Fault Response → Connector
  | .ok _    => { c with connectionFailures := 0, lastNodeOkAt := now }
  | .error f =>
      let c := { c with lastNodeFailAt := now }
      -- an HTTP error is still an answer of the endpoint
      if f.response.isSome then { c with connectionFailures := 0 }
      else if f.code.any (CONNECTION_ERROR_CODES.contains ·) then c.noteConnectionFailure
      else c

@[simp] theorem rpcErrors_rpcPost (c : Connector) (now : ℕ) (p : Except Fault Response) :
    (c.rpcPost now p).rpcErrors = c.rpcErrors := by
  cases p with
  | ok response => rfl
  | error f =>
    simp only [rpcPost, noteConnectionFailure]
    split_ifs <;> rfl

@[simp] theorem endpoints_rpcPost (c : Connector) (now : ℕ) (p : Except Fault Response) :
    (c.rpcPost now p).endpoints = c.endpoints := by
  cases p with
  | ok response => rfl
  | error f =>
    simp only [rpcPost, noteConnectionFailure]
    split_ifs <;> rfl

/-- There is an active endpoint. -/
def Valid (c : Connector) : Prop := c.activeEndpointIndex < c.endpoints.length

theorem Valid.rpcPost {c : Connector} (h : c.Valid) (now : ℕ) (p : Except Fault Response) :
    (c.rpcPost now p).Valid := by
  cases p with
  | ok response => exact h
  | error f =>
    simp only [Connector.rpcPost, noteConnectionFailure]
    split_ifs
    · exact h
    · exact h
    · exact Nat.mod_lt _ (Nat.zero_lt_of_lt h)
    · exact h
    · exact h

end Connector

/-! ## Section 3: Promises -/

inductive Param where
  | number (n : Int)
  | text (s : String)
  | flag (b : Bool)
deriving DecidableEq, Repr

structure Request where
  method : String
  params : List Param
deriving DecidableEq, Repr

inductive Call where
  /-- `this.rpcPost(data)` -/
  | post (data : Request)
  | sleep (ms : ℕ)
  /-- `this.rpcErrors++` -/
  | countError
deriving DecidableEq, Repr

@[reducible] def Call.Answer : Call → Type
  | .post _ => Except Fault Response
  | _       => Unit

/-- A program that resolves to an `α` or rejects. -/
abbrev Promise (α : Type) : Type := Prog Call Call.Answer (Except Fault α)

/-- Count the failure and throw it. -/
def reject {α : Type} (f : Fault) : Promise α := .call .countError (fun _ => .ret (.error f))

/-- How a call leaves the connector. -/
inductive Answers : (call : Call) → Connector → call.Answer → Connector → Prop where
  | post (data : Request) (c : Connector) (now : ℕ) (p : Except Fault Response) :
      Answers (.post data) c p (c.rpcPost now p)
  | sleep (ms : ℕ) (c : Connector) : Answers (.sleep ms) c () c
  | countError (c : Connector) : Answers .countError c () { c with rpcErrors := c.rpcErrors + 1 }

/-! ## Section 4: The ladder of the block path -/

/-- The wording of one method. -/
structure Wording where
  label       : String
  resultLabel : Option String := none
  exhausted   : Option String := none

/-- `backoffOnTimeout`, and then `p`. -/
def backoffOnTimeout {α : Type} (delay : ℕ) (p : Promise α) : Promise α :=
  if 0 < delay then .call (.sleep delay) (fun _ => p) else p

/-- The attempts that are left; `last` is the last timeout, sanitized. -/
def timeoutRetries (delay : ℕ) (data : Request) (words : Wording) :
    ℕ → Option (String × Fault) → Promise Value
  | 0,         last =>
      let message := words.exhausted.getD ("There were problems getting " ++ words.label ++ ".")
      reject (carryErrorIdentity
        (.plain (last.elim message (fun l => message ++ " " ++ l.1))) (last.map Prod.snd))
  | tries + 1, _    =>
      .call (.post data) (fun posted =>
        match posted.bind (rpcResult · (words.resultLabel.getD ("Error getting " ++ words.label))) with
        | .ok v    => .ret (.ok v)
        | .error f =>
            if f.code = some "ECONNABORTED" then
              backoffOnTimeout delay (timeoutRetries delay data words tries (some (sanitizeRpcError f)))
            else reject (sanitizeRpcError f).2)

def rpcCallWithTimeoutRetry (delay : ℕ) (data : Request) (words : Wording) : Promise Value :=
  timeoutRetries delay data words 10 none

def getNetworkInfo (delay : ℕ) : Promise Value :=
  rpcCallWithTimeoutRetry delay ⟨"getnetworkinfo", []⟩ ⟨"network info", none, none⟩

def getBlockchainInfo (delay : ℕ) : Promise Value :=
  rpcCallWithTimeoutRetry delay ⟨"getblockchaininfo", []⟩ ⟨"blockchain info", none, none⟩

/-- `Error getting block hash`, with a sample of the value. -/
def malformedHash (shown : String) : Value → Fault
  | .text _         => .plain ("Error getting block hash: malformed result (string " ++ shown ++ ")")
  | .other typeof _ =>
      .plain ("Error getting block hash: malformed result (" ++ typeof ++ " " ++ shown ++ ")")

/-- `shown` renders a value, cut off after 80 characters. -/
def getBlockHash (shown : Value → String) (delay : ℕ) (blockindex : Int) : Promise Hash :=
  (rpcCallWithTimeoutRetry delay ⟨"getblockhash", [.number blockindex]⟩
    ⟨"block hash", none, none⟩).andThen (fun r =>
      match r with
      | .error f   => .ret (.error f)
      | .ok result =>
          match result with
          | .text s     =>
              match Hash.ofAnswer (some (String.ofList s)) with
              | some hash => .ret (.ok hash)
              | none      => reject (malformedHash (shown result) result)
          | .other _ _  => reject (malformedHash (shown result) result))

def getBlockHeader (delay : ℕ) (blockhash : String) (hexFormat : Bool) : Promise Value :=
  rpcCallWithTimeoutRetry delay ⟨"getblockheader", [.text blockhash, .flag (!hexFormat)]⟩
    ⟨"block header", none, some "There were problems getting a block header. "⟩

def getBlockVerbose (delay : ℕ) (blockhash : String) : Promise Value :=
  rpcCallWithTimeoutRetry delay ⟨"getblock", [.text blockhash, .flag true]⟩
    ⟨"verbose block", none, none⟩

def getRawMempool (delay : ℕ) : Promise Value :=
  rpcCallWithTimeoutRetry delay ⟨"getrawmempool", []⟩
    ⟨"raw mempool", some "Error getting raw mempool info", none⟩

def getBlock (delay : ℕ) (blockhash : String) (hexFormat : Bool) : Promise Value :=
  rpcCallWithTimeoutRetry delay ⟨"getblock", [.text blockhash, .flag (!hexFormat)]⟩
    ⟨"block", some "Error getting block hex", none⟩

/-! ## Section 5: The ladder of a raw transaction -/

/-- A truthy result is to be a whole hex string. -/
def wholeHexResult (result : Value) (txid : String) : Except Fault (List Char) :=
  let malformed (shape : String) : Fault :=
    .plain ("getRawTransaction: malformed result for txid " ++ txid ++
      ": expected whole hex, got " ++ shape)
  match result with
  | .text s         =>
      if Wire.isWholeHex s then .ok s
      else .error (malformed ("a " ++ toString (Capture.utf16Length s) ++ "-char string"))
  | .other typeof _ => .error (malformed ("a " ++ typeof))

/-- `none` is a transaction the node does not have. -/
def rawTransactionResponse (response : Response) (txid : String) :
    Except Fault (Option (List Char)) :=
  let rpcError := response.data.bind Body.error
  match rpcError.bind RpcError.code with
  | some code =>
      if code ≠ -5 then
        let message := (rpcError.bind RpcError.message).getD "undefined"
        .error { Fault.plain ("getRawTransaction: RPC error " ++ toString code ++ ": " ++ message) with
          response := some ⟨response.status, rpcError⟩ }
      else resultOf response
  | none      => resultOf response
where
  resultOf (response : Response) : Except Fault (Option (List Char)) :=
    match response.data with
    | none      => .error { Fault.plain "Cannot read properties of null (reading 'result')" with
        name := "TypeError" }
    | some body =>
        match body.result.filter Value.truthy with
        | some result => (wholeHexResult result txid).map some
        | none        => .ok none

def isQueueFull (f : Fault) : Bool :=
  (f.response.bind FaultResponse.error).bind RpcError.code = some (-429) ||
    f.response.any (fun r => r.status = 503 || r.status = 429) ||
    f.code = some "ECONNRESET" || f.code = some "ECONNREFUSED"

/-- The attempts that are left; `last` is the last fault, sanitized. -/
def rawTransactionRetries (txid : String) : ℕ → Option (String × Fault) → Promise (Option (List Char))
  | 0,         last =>
      reject (carryErrorIdentity (.plain ("getRawTransaction failed after 10 attempts for txid " ++
        txid ++ last.elim "" (fun l => ": " ++ l.1))) (last.map Prod.snd))
  | tries + 1, _    =>
      .call (.post ⟨"getrawtransaction", [.text txid]⟩) (fun posted =>
        match posted.bind (rawTransactionResponse · txid) with
        | .ok v    => .ret (.ok v)
        | .error f =>
            -- the node does not have it, which is no failure
            if (f.response.bind FaultResponse.error).bind RpcError.code = some (-5) then .ret (.ok none)
            else
              .call (.sleep (if isQueueFull f then 5000 else 500)) (fun _ =>
                rawTransactionRetries txid tries (some (sanitizeRpcError f))))

def getRawTransaction (txid : String) : Promise (Option (List Char)) := rawTransactionRetries txid 10 none

end XChainDecoder.Rpc
