import XChainDecoder.Lib.Codec
import XChainDecoder.Wire.Flagged

/-! # A reader of the plain form

    The plain form of a transaction with an input, as a codec: `readPlain` answers
    what was written, leaves the bytes behind it, and never answers on less. So what
    the readers rely on bitcoinjs for can be had (`correct_ofPlain`). -/

namespace XChainDecoder.Wire

open Bytes

abbrev WireCodec := Codec MAX_SAFE_INTEGER

theorem safe_lt : MAX_SAFE_INTEGER < 2 ^ 64 := by decide

/-! ## Section 1: Pieces -/

/-- An input without its witness. -/
abbrev BareIn := Σ _ : Vector UInt8 32, Σ _ : UInt32, Σ _ : List UInt8, UInt32

def TxIn.bare (i : TxIn) : BareIn := ⟨i.hash, i.index, i.script, i.sequence⟩

def BareIn.toTxIn (b : BareIn) (witness : List (List UInt8)) : TxIn :=
  ⟨b.1, b.2.1, b.2.2.1, b.2.2.2, witness⟩

@[simp] theorem TxIn.toTxIn_bare (i : TxIn) : BareIn.toTxIn i.bare i.witness = i := rfl

def bareIn : WireCodec BareIn :=
  (Codec.bytes 32).seq fun _ => Codec.uint32.seq fun _ =>
    (Codec.string safe_lt).seq fun _ => Codec.uint32

theorem bareIn_encode (i : TxIn) : bareIn.encode i.bare = i.bytes := by
  show i.hash.toList ++ (leBytes 4 i.index.toNat ++ (varBytes i.script ++
    leBytes 4 i.sequence.toNat)) = i.bytes
  simp only [TxIn.bytes, TxIn.prevout, uint32Bytes, List.append_assoc]

def txOut : WireCodec TxOut :=
  (Codec.uint64.seq fun _ => Codec.string safe_lt).map (fun p => ⟨p.1, p.2⟩)
    (fun o => ⟨o.value, o.script⟩) (fun _ => rfl)

theorem txOut_encode : txOut.encode = TxOut.bytes := rfl

theorem length_varBytes (bs : List UInt8) : 0 < (varBytes bs).length := length_varBytes_pos bs

/-- A witness stack. -/
def stack : WireCodec (List (List UInt8)) :=
  Codec.list (Codec.string safe_lt) safe_lt length_varBytes

theorem stack_encode (i : TxIn) : stack.encode i.witness = i.witnessBytes := rfl

def ins : WireCodec (List BareIn) :=
  Codec.list bareIn safe_lt (fun b => by
    have := TxIn.length_bytes_pos (b.toTxIn [])
    rwa [← bareIn_encode] at this)

theorem ins_encode (l : List TxIn) : ins.encode (l.map TxIn.bare) = counted TxIn.bytes l := by
  show compactSize (l.map TxIn.bare).length ++ (l.map TxIn.bare).flatMap bareIn.encode = _
  rw [counted, List.length_map, List.flatMap_map]
  congr 2
  funext i
  exact bareIn_encode i

def outs : WireCodec (List TxOut) :=
  Codec.list txOut safe_lt (fun o => TxOut.length_bytes_pos o)

/-! ## Section 2: The two plain forms -/

/-- Behind the version, where no input has a witness. -/
def legacyBody : WireCodec (Σ _ : List BareIn, Σ _ : List TxOut, UInt32) :=
  ins.seq fun _ => outs.seq fun _ => Codec.uint32

/-- Behind the flag 0x01: as many witness stacks as inputs. -/
def segwitBody : WireCodec (Σ i : List BareIn, Σ _ : List TxOut,
    Σ _ : {w : List (List (List UInt8)) // w.length = i.length}, UInt32) :=
  ins.seq fun i => outs.seq fun _ => (stack.many i.length).seq fun _ => Codec.uint32

def readLegacy (version : UInt32) (bs : List UInt8) : Option (Transaction × List UInt8) :=
  (legacyBody.decode bs).map fun p =>
    (⟨version.toInt32, p.1.1.map (BareIn.toTxIn · []), p.1.2.1, p.1.2.2⟩, p.2)

def readSegwit (version : UInt32) (bs : List UInt8) : Option (Transaction × List UInt8) :=
  (segwitBody.decode bs).map fun p =>
    (⟨version.toInt32, List.zipWith BareIn.toTxIn p.1.1 p.1.2.2.1.val, p.1.2.1, p.1.2.2.2⟩, p.2)

/-- A transaction in the plain form, and the bytes behind it. -/
def readPlain (bs : List UInt8) : Option (Transaction × List UInt8) := do
  let (version, bs) ← (Codec.uint32 : WireCodec UInt32).decode bs
  let (marker, behind) ← Codec.split 2 bs
  if marker = [0x00, 0x01] then readSegwit version behind else readLegacy version bs

theorem readSegwit_append (t : Transaction) (hwitness : t.hasWitnesses = true) (rest : List UInt8)
    (hsafe : t.plain.length ≤ MAX_SAFE_INTEGER) :
    readSegwit t.version.toUInt32 (t.body ++ uint32Bytes t.locktime ++ rest) = some (t, rest) := by
  have henc : segwitBody.encode ⟨t.ins.map TxIn.bare, t.outs,
      ⟨t.ins.map TxIn.witness, by simp⟩, t.locktime⟩ = t.body ++ uint32Bytes t.locktime := by
    show ins.encode (t.ins.map TxIn.bare) ++ (counted TxOut.bytes t.outs ++
      ((t.ins.map TxIn.witness).flatMap stack.encode ++ uint32Bytes t.locktime)) = _
    rw [ins_encode, List.flatMap_map]
    simp only [Transaction.body, Transaction.vin, Transaction.vout, Transaction.witnesses,
      if_pos hwitness, List.append_assoc]
    rfl
  have hfits : (segwitBody.encode ⟨t.ins.map TxIn.bare, t.outs,
      ⟨t.ins.map TxIn.witness, by simp⟩, t.locktime⟩).length ≤ MAX_SAFE_INTEGER := by
    rw [henc]
    simp only [Transaction.plain, List.length_append] at hsafe ⊢
    omega
  have hread := segwitBody.reads _ rest hfits
  rw [henc] at hread
  have hzip : List.zipWith BareIn.toTxIn (t.ins.map TxIn.bare) (t.ins.map TxIn.witness) = t.ins := by
    rw [List.zipWith_map, List.zipWith_self]
    simp
  rw [readSegwit, hread, Option.map_some]
  simp only [hzip, Int32.toInt32_toUInt32]

theorem readLegacy_append (t : Transaction) (hwitness : ¬t.hasWitnesses = true) (rest : List UInt8)
    (hsafe : t.plain.length ≤ MAX_SAFE_INTEGER) :
    readLegacy t.version.toUInt32 (t.body ++ uint32Bytes t.locktime ++ rest) = some (t, rest) := by
  have henc : legacyBody.encode ⟨t.ins.map TxIn.bare, t.outs, t.locktime⟩ =
      t.body ++ uint32Bytes t.locktime := by
    show ins.encode (t.ins.map TxIn.bare) ++ (counted TxOut.bytes t.outs ++
      uint32Bytes t.locktime) = _
    rw [ins_encode]
    simp only [Transaction.body, Transaction.vin, Transaction.vout, Transaction.witnesses,
      if_neg hwitness, List.append_assoc, List.nil_append]
  have hfits : (legacyBody.encode ⟨t.ins.map TxIn.bare, t.outs, t.locktime⟩).length ≤
      MAX_SAFE_INTEGER := by
    rw [henc]
    simp only [Transaction.plain, List.length_append] at hsafe ⊢
    omega
  have hread := legacyBody.reads _ rest hfits
  rw [henc] at hread
  have hbare : (t.ins.map TxIn.bare).map (BareIn.toTxIn · []) = t.ins := by
    rw [List.map_map]
    apply (List.map_congr_left _).trans (List.map_id _)
    intro i hi
    have hnone : i.witness = [] := by
      simp only [Transaction.hasWitnesses, List.any_eq_true, not_exists, not_and] at hwitness
      simpa using hwitness i hi
    show (⟨i.hash, i.index, i.script, i.sequence, []⟩ : TxIn) = i
    rw [← hnone]
  rw [readLegacy, hread, Option.map_some]
  simp only [hbare, Int32.toInt32_toUInt32]

theorem readPlain_append {t : Transaction} (hins : t.ins ≠ []) (rest : List UInt8)
    (hsafe : t.plain.length ≤ MAX_SAFE_INTEGER) : readPlain (t.plain ++ rest) = some (t, rest) := by
  have hversion : ∀ behind, (Codec.uint32 : WireCodec UInt32).decode (t.versionBytes ++ behind) =
      some (t.version.toUInt32, behind) := by
    intro behind
    apply Codec.uint32.reads
    show (uint32Bytes t.version.toUInt32).length ≤ _
    rw [length_uint32Bytes]
    decide
  have hplain : t.plain ++ rest = t.versionBytes ++
      ((if t.hasWitnesses then [0x00, 0x01] else []) ++ (t.body ++ uint32Bytes t.locktime ++ rest)) := by
    simp only [Transaction.plain, List.append_assoc]
  rw [hplain, readPlain, hversion]
  simp only [Option.bind_eq_bind, Option.bind_some]
  by_cases hwitness : t.hasWitnesses = true
  · rw [if_pos hwitness, @Codec.split_append 2 [0x00, 0x01] rfl]
    simp only [Option.bind_some, if_pos]
    exact readSegwit_append t hwitness rest hsafe
  · -- the count of the inputs is not zero, so its first byte is not the marker
    have hcount : t.ins.length ≠ 0 := fun hzero => hins (List.length_eq_zero_iff.mp hzero)
    rcases compactSize_head hcount with ⟨b, tail, hhead, hb⟩
    have hlong : 2 ≤ (t.body ++ uint32Bytes t.locktime ++ rest).length := by
      simp only [List.length_append, length_uint32Bytes]
      omega
    have hsplit : Codec.split 2 (t.body ++ uint32Bytes t.locktime ++ rest) =
        some ((t.body ++ uint32Bytes t.locktime ++ rest).take 2,
          (t.body ++ uint32Bytes t.locktime ++ rest).drop 2) := if_pos hlong
    have hmarker : ¬(t.body ++ uint32Bytes t.locktime ++ rest).take 2 = [0x00, 0x01] := by
      intro htake
      have hfirst := congrArg List.head? htake
      simp only [Transaction.body, Transaction.vin, counted, hhead, List.append_assoc,
        List.cons_append, List.take_succ_cons, List.head?_cons, Option.some.injEq] at hfirst
      exact hb hfirst
    rw [if_neg hwitness, List.nil_append, hsplit]
    simp only [Option.bind_some, if_neg hmarker]
    exact readLegacy_append t hwitness rest hsafe

theorem readPlain_persists {bs rest : List UInt8} {t : Transaction}
    (h : readPlain bs = some (t, rest)) (more : List UInt8) :
    readPlain (bs ++ more) = some (t, rest ++ more) := by
  simp only [readPlain, Option.bind_eq_bind, Option.bind_eq_some_iff] at h ⊢
  rcases h with ⟨⟨version, bs₁⟩, hversion, ⟨marker, bs₂⟩, hmarker, hbody⟩
  refine ⟨(version, bs₁ ++ more), Codec.uint32.persists _ _ _ more hversion,
    (marker, bs₂ ++ more), Codec.split_persists hmarker more, ?_⟩
  by_cases hsegwit : marker = [0x00, 0x01]
  · simp only [if_pos hsegwit, readSegwit, Option.map_eq_some_iff] at hbody ⊢
    rcases hbody with ⟨⟨p, bs₃⟩, hp, heq⟩
    refine ⟨(p, bs₃ ++ more), segwitBody.persists _ _ _ more hp, ?_⟩
    simp only [Prod.mk.injEq] at heq ⊢
    exact ⟨heq.1, by rw [heq.2]⟩
  · simp only [if_neg hsegwit, readLegacy, Option.map_eq_some_iff] at hbody ⊢
    rcases hbody with ⟨⟨p, bs₃⟩, hp, heq⟩
    refine ⟨(p, bs₃ ++ more), legacyBody.persists _ _ _ more hp, ?_⟩
    simp only [Prod.mk.injEq] at heq ⊢
    exact ⟨heq.1, by rw [heq.2]⟩

/-- Nothing is read from a plain form that was cut off. -/
theorem readPlain_short {t : Transaction} (hins : t.ins ≠ []) {bs more : List UInt8}
    (h : bs ++ more = t.plain) (hmore : more ≠ []) (hsafe : t.plain.length ≤ MAX_SAFE_INTEGER) :
    readPlain bs = none := by
  cases hread : readPlain bs with
  | none => rfl
  | some p =>
    have hlonger := readPlain_persists hread more
    have hwhole := readPlain_append hins [] hsafe
    rw [List.append_nil, ← h, hlonger] at hwhole
    simp only [Option.some.injEq, Prod.mk.injEq, List.append_eq_nil_iff] at hwhole
    exact absurd hwhole.2.2 hmore

/-! ## Section 3: What the readers rely on -/

/-- `Transaction.fromBuffer` over `readPlain`. -/
def transactionFromPlain (bs : List UInt8) (noStrict : Bool) : Except String Transaction :=
  match readPlain bs with
  | none           => .error "Cannot read slice out of bounds"
  | some (t, rest) =>
    if noStrict = true ∨ rest = [] then .ok t
    else .error "superfluous data after the transaction"

/-- `varuint.decode` -/
def decodeVaruint (bs : List UInt8) (offset : ℕ) : Except String (ℕ × ℕ) :=
  match Codec.decodeCount (bs.drop offset) with
  | none           => .error "out of range"
  | some (n, rest) =>
    if n ≤ MAX_SAFE_INTEGER then .ok (n, (bs.drop offset).length - rest.length)
    else .error "value out of range"

/-- Readers of the plain form, with any merkle roots and witness commitments. -/
def BitcoinJs.ofPlain (calculateMerkleRoot : List Transaction → Vector UInt8 32)
    (getWitnessCommit : List Transaction → Option (List UInt8))
    (blockFromBuffer : List UInt8 → Except String Block) (blockByteLength : Block → ℕ) :
    BitcoinJs where
  transactionFromBuffer := transactionFromPlain
  byteLength            := fun t => t.plain.length
  calculateMerkleRoot   := calculateMerkleRoot
  getWitnessCommit      := getWitnessCommit
  varuintDecode         := decodeVaruint
  blockFromBuffer       := blockFromBuffer
  blockByteLength       := blockByteLength

theorem correct_ofPlain (calculateMerkleRoot : List Transaction → Vector UInt8 32)
    (getWitnessCommit : List Transaction → Option (List UInt8))
    (blockFromBuffer : List UInt8 → Except String Block) (blockByteLength : Block → ℕ) :
    (BitcoinJs.ofPlain calculateMerkleRoot getWitnessCommit blockFromBuffer
      blockByteLength).Correct where
  reads t rest noStrict hins hsafe hrest := by
    rw [List.length_append] at hsafe
    simp only [BitcoinJs.ofPlain, transactionFromPlain,
      readPlain_append hins rest (by omega), if_pos hrest]
  rejects t bs more noStrict hins hwhole hmore hsafe := by
    simp only [BitcoinJs.ofPlain, transactionFromPlain, readPlain_short hins hwhole hmore hsafe]
    exact ⟨_, rfl⟩
  byteLength t hins := rfl
  readsCount n bs offset rest hn h := by
    have hlt : n < 2 ^ 64 := lt_of_le_of_lt hn safe_lt
    simp only [BitcoinJs.ofPlain, decodeVaruint, h.2, Codec.decodeCount_compactSize hlt rest,
      if_pos hn, List.length_append, Nat.add_sub_cancel]
  rejectsCount n bs offset enc more hn h hwhole hmore := by
    have hlt : n < 2 ^ 64 := lt_of_le_of_lt hn safe_lt
    simp only [BitcoinJs.ofPlain, decodeVaruint, h.2, Codec.decodeCount_short hlt hwhole hmore]
    exact ⟨_, rfl⟩

end XChainDecoder.Wire
