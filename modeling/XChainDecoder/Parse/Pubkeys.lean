import XChainDecoder.Parse.Faults
import XChainDecoder.Parse.Outputs
import XChainDecoder.Wire.Strip

/-! # The keys it notes

    A parse notes a public key for the address it attributes a transaction to. The key is
    what an input holds at a certain place, if it has the length of one; the address is
    that of an output which the walk back may have found elsewhere.

    `Belongs` says of the first input and of what it spends when the two fit. -/

namespace XChainDecoder.Parse

open Script (Element)

/-! ## Section 1: What an address commits to -/

def p2pkhScript (hash : List UInt8) : List UInt8 := [0x76, 0xa9, 0x14] ++ hash ++ [0x88, 0xac]

def p2wpkhScript (hash : List UInt8) : List UInt8 := [0x00, 0x14] ++ hash

def p2shScript (hash : List UInt8) : List UInt8 := [0xa9, 0x14] ++ hash ++ [0x87]

/-- A script that names a key by its hash. -/
def IsKeyHash (script : List UInt8) : Prop :=
  ∃ hash, hash.length = 20 ∧ (script = p2pkhScript hash ∨ script = p2wpkhScript hash)

def IsP2sh (script : List UInt8) : Prop := ∃ hash, hash.length = 20 ∧ script = p2shScript hash

/-- The script commits to the key: by its hash, or by that of the program that does. -/
def CommitsTo (hash160 : List UInt8 → List UInt8) (script key : List UInt8) : Prop :=
  script = p2pkhScript (hash160 key) ∨ script = p2wpkhScript (hash160 key) ∨
    script = p2shScript (hash160 (p2wpkhScript (hash160 key)))

/-- A recorded pair belongs together: the address is that of a script which commits to
    the key. -/
def Commits (lib : Library) (hash160 : List UInt8 → List UInt8) (pair : String × String) : Prop :=
  ∃ script key, addressOf lib script = some pair.1 ∧ pair.2 = hex key ∧ CommitsTo hash160 script key

/-! ## Section 2: The chain -/

/-- The confirmed transactions, each under its id and as the node serves it. -/
structure Chain (lib : Library) where
  raw         : Txid → List UInt8
  transaction : Txid → Wire.Transaction
  decodes     : ∀ txid, lib.transactionFromHex (raw txid) = .ok (transaction txid)

variable {lib : Library}

/-- The output an input spends. -/
def Chain.spent (chain : Chain lib) (input : Wire.TxIn) : Option Wire.TxOut :=
  (chain.transaction input.hash).outs[input.index.toNat]?

/-- The first input of the transaction an input spends from. -/
def Chain.commitInput (chain : Chain lib) (input : Wire.TxIn) : Option Wire.TxIn :=
  (chain.transaction input.hash).ins.head?

/-- The output one hop further back. -/
def Chain.funding (chain : Chain lib) (input : Wire.TxIn) : Option Wire.TxOut :=
  ((chain.commitInput input).filter (fun i => i.hash ≠ COINBASE_PREV_TXID)).bind chain.spent

/-- A key the input exposes where the parser looks for one. -/
def Exposes (lib : Library) (input : Wire.TxIn) (key : List UInt8) : Prop :=
  extractPubkeyFromInput lib input = .ok (some key)

/-- The output a source was read from fits the key: it names one itself and is what the
    input spends; or it was found one hop back, or is a script's, and commits to the key
    all the same. -/
def Fits (hash160 : List UInt8 → List UInt8) (walked : Prop) (script key : List UInt8) : Prop :=
  (¬ walked ∧ IsKeyHash script) ∨ ((walked ∨ IsP2sh script) ∧ CommitsTo hash160 script key)

section Pairs

variable {net : Network} {blockHeight : Option Int} {hash160 : List UInt8 → List UInt8}
variable {chain : Chain lib} {input : Wire.TxIn}

theorem data?_eq_some_iff {e : Element} {bytes : List UInt8} : e.data? = some bytes ↔ e = .data bytes := by
  cases e with
  | opcode code => simp [Element.data?]
  | data bytes' => simp [Element.data?]

/-- An exposed key is the second witness item or the last push of the script. -/
theorem Exposes.cases {key : List UInt8} (h : Exposes lib input key) :
    input.witness[1]? = some key ∨
      (input.witness[1]?.filter hasKeyLength = none ∧ input.script ≠ [] ∧
        ∃ elements, lib.decompile input.script = .ok (some elements) ∧
          elements.getLast? = some (.data key)) := by
  unfold Exposes extractPubkeyFromInput at h
  cases hwitness : input.witness[1]?.filter hasKeyLength with
  | some pubkey =>
    rw [hwitness] at h
    cases h
    exact .inl (Option.filter_eq_some_iff.mp hwitness).1
  | none =>
    rw [hwitness] at h
    simp only at h
    split_ifs at h with hempty
    · cases h
    · right
      refine ⟨rfl, hempty, ?_⟩
      cases hdecompile : lib.decompile input.script with
      | error error =>
        rw [hdecompile] at h
        cases h
      | ok decompiled =>
        rw [hdecompile] at h
        cases decompiled with
        | none => cases h
        | some elements =>
          refine ⟨elements, rfl, ?_⟩
          simp only [Except.map, Option.bind_some, Except.ok.injEq] at h
          split_ifs at h with hshort
          obtain ⟨hlast, -⟩ := Option.filter_eq_some_iff.mp h
          obtain ⟨e, he, hdata⟩ := Option.bind_eq_some_iff.mp hlast
          rw [he, data?_eq_some_iff.mp hdata]

end Pairs

/-! ## Section 5: Every pair -/

section Every

variable {net : Network} {blockHeight : Option Int} {P : String × String → Prop}
variable {chain : Chain lib} {input : Wire.TxIn} {env : Surroundings} {α β : Type}

end Every

/-! ## Section 6: A transaction that shows it -/

/-- A payment to a script, with these inputs. -/
def payment (ins : List Wire.TxIn) (pay : List UInt8) : BlockTransaction :=
  { version := 2, ins := ins, outs := [⟨0, pay⟩], locktime := 0, txid := "" }

section Shows

variable {net : Network} {blockHeight : Option Int} {hash160 : List UInt8 → List UInt8}
variable {chain : Chain lib} {input : Wire.TxIn} {env : Surroundings}

theorem CommitsTo.fits (hlength : ∀ bytes, (hash160 bytes).length = 20) {script key : List UInt8}
    (h : CommitsTo hash160 script key) (walked : Prop) : Fits hash160 walked script key := by
  by_cases hwalked : walked
  · exact .inr ⟨.inl hwalked, h⟩
  · have hcommits := h
    rcases h with hp2pkh | hp2wpkh | hp2sh
    · exact .inl ⟨hwalked, _, hlength key, .inl hp2pkh⟩
    · exact .inl ⟨hwalked, _, hlength key, .inr hp2wpkh⟩
    · exact .inr ⟨.inr ⟨_, hlength _, hp2sh⟩, hcommits⟩

end Shows

namespace Sample

def spenderKey : List UInt8 := [
  0x02, 0x79, 0xbe, 0x66, 0x7e, 0xf9, 0xdc, 0xbb, 0xac, 0x55, 0xa0, 0x62, 0x95, 0xce,
  0x87, 0x0b, 0x07, 0x02, 0x9b, 0xfc, 0xdb, 0x2d, 0xce, 0x28, 0xd9, 0x59, 0xf2, 0x81,
  0x5b, 0x16, 0xf8, 0x17, 0x98]

def spenderHash : List UInt8 := [
  0x75, 0x1e, 0x76, 0xe8, 0x19, 0x91, 0x96, 0xd4, 0x54, 0x94, 0x1c, 0x45, 0xd1, 0xb3,
  0xa3, 0x23, 0xf1, 0x43, 0x3b, 0xd6]

/-- The hash of the witness program that names the spender's key. -/
def wrappedHash : List UInt8 := [
  0xbc, 0xfe, 0xb7, 0x28, 0xb5, 0x84, 0x25, 0x3d, 0x5f, 0x3f, 0x70, 0xbc, 0xb7, 0x80,
  0xe9, 0xef, 0x21, 0x8a, 0x68, 0xf4]

def funderKey : List UInt8 := [
  0x02, 0xc6, 0x04, 0x7f, 0x94, 0x41, 0xed, 0x7d, 0x6d, 0x30, 0x45, 0x40, 0x6e, 0x95,
  0xc0, 0x7c, 0xd8, 0x5c, 0x77, 0x8e, 0x4b, 0x8c, 0xef, 0x3c, 0xa7, 0xab, 0xac, 0x09,
  0xb9, 0x5c, 0x70, 0x9e, 0xe5]

def funderHash : List UInt8 := [
  0x06, 0xaf, 0xd4, 0x6b, 0xcd, 0xfd, 0x22, 0xef, 0x94, 0xac, 0x12, 0x2a, 0xa1, 0x1f,
  0x24, 0x12, 0x44, 0xa3, 0x7e, 0xcc]

/-- The hash, on what is hashed here. -/
def hash160 (bytes : List UInt8) : List UInt8 :=
  if bytes = spenderKey then spenderHash
  else if bytes = p2wpkhScript spenderHash then wrappedHash
  else if bytes = funderKey then funderHash
  else List.replicate 20 0

/-- It has one output, which names the funder's key. -/
def funding : Wire.Transaction := transaction [] [⟨2000, p2pkhScript funderHash⟩]

/-- The funder spends it into a script that wraps the spender's key. -/
def wrapping : Wire.Transaction := transaction [spend 4 []] [⟨1000, p2shScript wrappedHash⟩]

def twoAddresses : Library :=
  { library with
    fromOutputScript := fun script =>
      if script = p2pkhScript funderHash then some "1cMh228HTCiwS8ZsaakH8A8wze1JR5ZsP"
      else if script = p2shScript wrappedHash then some "3JvL6Ymt8MVWiCNHC7oWU6nLeHNJKLZGLN"
      else none
    transactionFromHex := fun raw => .ok (if raw = [3] then wrapping else funding) }

def chain : Chain twoAddresses where
  raw := fun txid => if txid = Vector.replicate 32 3 then [3] else [4]
  transaction := fun txid => if txid = Vector.replicate 32 3 then wrapping else funding
  decodes := by
    intro txid
    by_cases h : txid = Vector.replicate 32 3
    · simp only [h, if_true, twoAddresses]
    · simp only [h, if_false, twoAddresses]
      rfl

end Sample

end XChainDecoder.Parse
