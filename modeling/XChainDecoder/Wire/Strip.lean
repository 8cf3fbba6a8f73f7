import XChainDecoder.Wire.AuxPow
import XChainDecoder.Wire.Plain

/-! # Stripping the AuxPoW section

    The block a merge-mined chain's node serves is a block with an AuxPoW section put
    behind its header. `stripAuxPowFromBlockHex` takes it out again, by the length of the
    header where that is longer than 80 bytes and by walking the section where it is not,
    and answers only what `assertWholeBlock` takes for a whole block. Where that fails,
    `getBlockReassembled` puts the block together from its transactions. -/

namespace XChainDecoder.Wire

open Bytes

/-! ## Section 1: Hex -/

def hexDigit (n : ℕ) : Char := if n < 10 then Char.ofNat (48 + n) else Char.ofNat (87 + n)

/-- `buffer.toString("hex")` -/
def hexOf (bs : List UInt8) : List Char :=
  bs.flatMap (fun b => [hexDigit (b.toNat / 16), hexDigit (b.toNat % 16)])

/-- `Buffer.from(value, "hex")`, which stops in front of what is no byte. -/
def fromHex : List Char → List UInt8
  | a :: b :: cs =>
      if isHexDigit a ∧ isHexDigit b then UInt8.ofNat (16 * hexValue a + hexValue b) :: fromHex cs
      else []
  | _            => []

/-- Bytes in hex, in either case. -/
def Spells (cs : List Char) (bs : List UInt8) : Prop :=
  fromHex cs = bs ∧ cs.length = 2 * bs.length

theorem length_fromHex_le (cs : List Char) : 2 * (fromHex cs).length ≤ cs.length := by
  fun_induction fromHex cs with
  | case1 a b cs hhex ih =>
    simp only [List.length_cons]
    omega
  | case2 => simp
  | case3 => simp

theorem fromHex_cons_eq {cs : List Char} {b : UInt8} {bs : List UInt8} (h : fromHex cs = b :: bs) :
    ∃ x y cs', cs = x :: y :: cs' ∧ isHexDigit x = true ∧ isHexDigit y = true ∧
      b = UInt8.ofNat (16 * hexValue x + hexValue y) ∧ fromHex cs' = bs := by
  cases cs with
  | nil => cases h
  | cons x cs =>
    cases cs with
    | nil => cases h
    | cons y cs =>
      unfold fromHex at h
      split_ifs at h with hhex
      cases h
      exact ⟨x, y, cs, rfl, hhex.1, hhex.2, rfl, rfl⟩

theorem Spells.nil : Spells [] [] := ⟨rfl, rfl⟩

theorem Spells.cons_eq {cs : List Char} {b : UInt8} {bs : List UInt8} (h : Spells cs (b :: bs)) :
    ∃ x y cs', cs = x :: y :: cs' ∧ (∀ ds, fromHex (x :: y :: ds) = b :: fromHex ds) ∧
      Spells cs' bs := by
  obtain ⟨x, y, cs', rfl, hx, hy, hb, hrest⟩ := fromHex_cons_eq h.1
  have hlength := h.2
  simp only [List.length_cons] at hlength
  refine ⟨x, y, cs', rfl, fun ds => ?_, hrest, by omega⟩
  rw [fromHex, if_pos ⟨hx, hy⟩, hb]

theorem Spells.append {cs ds : List Char} {bs es : List UInt8} (h : Spells cs bs)
    (h' : Spells ds es) : Spells (cs ++ ds) (bs ++ es) := by
  induction bs generalizing cs with
  | nil =>
    have hnil : cs = [] := List.length_eq_zero_iff.mp h.2
    rw [hnil]
    exact h'
  | cons b bs ih =>
    obtain ⟨x, y, cs', rfl, hstep, hrest⟩ := h.cons_eq
    have hih := ih hrest
    refine ⟨?_, ?_⟩
    · show fromHex (x :: y :: (cs' ++ ds)) = b :: (bs ++ es)
      rw [hstep, hih.1]
    · have hlength := hih.2
      simp only [List.cons_append, List.length_cons] at hlength ⊢
      omega

/-- Cut in two behind whole bytes, both parts spell theirs. -/
theorem Spells.split {cs : List Char} {bs : List UInt8} (h : Spells cs bs) {k : ℕ}
    (hk : k ≤ bs.length) :
    Spells (cs.take (2 * k)) (bs.take k) ∧ Spells (cs.drop (2 * k)) (bs.drop k) := by
  induction k generalizing cs bs with
  | zero => exact ⟨Spells.nil, h⟩
  | succ k ih =>
    cases bs with
    | nil => simp at hk
    | cons b bs =>
      obtain ⟨x, y, cs', rfl, hstep, hrest⟩ := h.cons_eq
      obtain ⟨htake, hdrop⟩ := ih hrest (Nat.le_of_succ_le_succ hk)
      refine ⟨⟨?_, ?_⟩, hdrop⟩
      · show fromHex (x :: y :: cs'.take (2 * k)) = b :: bs.take k
        rw [hstep, htake.1]
      · have hlength := htake.2
        show (x :: y :: cs'.take (2 * k)).length = 2 * (b :: bs.take k).length
        simp only [List.length_cons]
        omega

theorem isHexDigit_hexDigit {n : ℕ} (h : n < 16) : isHexDigit (hexDigit n) = true := by
  revert n
  decide

theorem hexValue_hexDigit {n : ℕ} (h : n < 16) : hexValue (hexDigit n) = n := by
  revert n
  decide

@[simp] theorem length_hexOf (bs : List UInt8) : (hexOf bs).length = 2 * bs.length := by
  induction bs with
  | nil => rfl
  | cons b bs ih =>
    simp only [hexOf, List.flatMap_cons, List.length_append, List.length_cons] at ih ⊢
    rw [ih]
    simp only [List.length_nil]
    omega

theorem hexOf_append (bs es : List UInt8) : hexOf (bs ++ es) = hexOf bs ++ hexOf es :=
  List.flatMap_append

theorem spells_hexOf (bs : List UInt8) : Spells (hexOf bs) bs := by
  refine ⟨?_, length_hexOf bs⟩
  induction bs with
  | nil => rfl
  | cons b bs ih =>
    have hb := b.toNat_lt
    have hhigh : b.toNat / 16 < 16 := by omega
    have hlow : b.toNat % 16 < 16 := Nat.mod_lt _ (by decide)
    have hbyte : UInt8.ofNat (16 * (b.toNat / 16) + b.toNat % 16) = b := by
      rw [Nat.div_add_mod]
      exact UInt8.ofNat_toNat
    show fromHex (hexDigit (b.toNat / 16) :: hexDigit (b.toNat % 16) :: hexOf bs) = b :: bs
    rw [fromHex, if_pos ⟨isHexDigit_hexDigit hhigh, isHexDigit_hexDigit hlow⟩,
      hexValue_hexDigit hhigh, hexValue_hexDigit hlow, hbyte, ih]

/-- The buffer of a string. -/
def Buffer.fromHex (value : JsString) : Buffer where
  bytes := Wire.fromHex value.chars
  safe := by
    have hlength := length_fromHex_le value.chars
    have hsafe := value.safe
    omega

/-! ## Section 2: Whole blocks -/

variable (js : BitcoinJs)

def wholeError (what : String) : Thrown := .error ("AuxPoW parse: stripped block " ++ what)

def assertWholeBlock (blockHex : List Char) : Except Thrown Unit :=
  let buf := fromHex blockHex
  if buf.length * 2 ≠ blockHex.length then throw (wholeError "is not whole hex bytes")
  else
    match js.blockFromBuffer buf with
    | .error message => throw (wholeError ("does not parse: " ++ message))
    | .ok block      =>
        let txs := block.transactions.getD []
        let used := js.blockByteLength block
        if txs.length < 1 then throw (wholeError "holds no transactions")
        else if used ≠ buf.length then
          throw (wholeError ("has " ++ toString ((buf.length : ℤ) - used) ++
            " bytes after its last transaction"))
        else if js.calculateMerkleRoot txs ≠ block.header.merkleRoot then
          throw (wholeError "merkle root does not match its transactions")
        else return ()

/-- White space in front of a number. -/
def isWhitespace (c : Char) : Bool :=
  c.toNat ∈ [0x9, 0xa, 0xb, 0xc, 0xd, 0x20, 0xa0, 0x1680, 0x2000, 0x2001, 0x2002, 0x2003, 0x2004,
    0x2005, 0x2006, 0x2007, 0x2008, 0x2009, 0x200a, 0x2028, 0x2029, 0x202f, 0x205f, 0x3000, 0xfeff]

def hexNumber (digits : List Char) : ℕ := digits.foldl (fun n c => 16 * n + hexValue c) 0

/-- `0x`, in either case. -/
def dropHexPrefix : List Char → List Char
  | '0' :: 'x' :: rest => rest
  | '0' :: 'X' :: rest => rest
  | rest               => rest

/-- The digits `parseInt` reads, none where it answers `NaN`. -/
def parseDigits (value : List Char) : Option ℕ :=
  let digits := (dropHexPrefix value).takeWhile isHexDigit
  if digits = [] then none else some (hexNumber digits)

/-- `parseInt(value, 16)` -/
def parseInt16 (value : List Char) : Option ℤ :=
  match value.dropWhile isWhitespace with
  | '-' :: rest => (parseDigits rest).map (fun n => -(n : ℤ))
  | '+' :: rest => (parseDigits rest).map (fun n => (n : ℤ))
  | rest        => (parseDigits rest).map (fun n => (n : ℤ))

/-- The version, turned around. `NaN` counts as zero. -/
def readVersion (blockHex : List Char) : BitVec 32 :=
  let versionLE := BitVec.ofInt 32 ((parseInt16 (blockHex.take 8)).getD 0)
  ((versionLE &&& 0xFF) <<< 24) ||| (((versionLE.sshiftRight 8) &&& 0xFF) <<< 16) |||
    (((versionLE.sshiftRight 16) &&& 0xFF) <<< 8) ||| ((versionLE.sshiftRight 24) &&& 0xFF)

/-- `blockHex` without what stands between its header and `stop`. -/
def cutBehindHeader (blockHex : JsString) (stop : ℕ) : List Char :=
  blockHex.chars.take 160 ++ blockHex.chars.drop stop

def stripAuxPowFromBlockHex (headerHex : List Char) (blockHex : JsString) :
    Except Thrown (List Char) :=
  if 160 < headerHex.length then do
    let dataToRemove := headerHex.length - 160
    let stripped := cutBehindHeader blockHex (160 + dataToRemove)
    assertWholeBlock js stripped
    return stripped
  else if 8 ≤ blockHex.chars.length ∧ readVersion blockHex.chars &&& 0x100 ≠ 0 then do
    let afterAuxPow ← skipAuxPow (Buffer.fromHex blockHex) 80
    let stripped := cutBehindHeader blockHex (afterAuxPow * 2)
    assertWholeBlock js stripped
    return stripped
  else return blockHex.chars

/-! ## Section 3: The fetches of a block -/

/-- What the connector's calls answer about one block. -/
structure BlockFetches where
  getBlockHeader    : Except Thrown (List Char)
  getBlock          : Except Thrown JsString
  /-- the `tx` of a verbose block, if it has one -/
  getBlockVerbose   : Except Thrown (Option (List String))
  getRawTransaction : String → Except Thrown (Option (List Char))

def isWholeHex (value : List Char) : Bool :=
  value ≠ [] && value.length % 2 = 0 && value.all isHexDigit

/-- What `getBlockWithoutAuxPow` throws: as the fetch threw it, or tagged as a content
    fault. -/
inductive BlockFault where
  | fetch (e : Thrown)
  | auxPowParseFailure (message : String) (cause : Thrown)

def getBlockWithoutAuxPow (fetches : BlockFetches) (blockhash : String) :
    Except BlockFault (List Char) := do
  let blockHeaderHex ← fetches.getBlockHeader.mapError BlockFault.fetch
  let blockHex ← fetches.getBlock.mapError BlockFault.fetch
  if !isWholeHex blockHeaderHex || !isWholeHex blockHex.chars then
    let badMethod := if isWholeHex blockHeaderHex then "getblock" else "getblockheader"
    let badValue := if isWholeHex blockHeaderHex then blockHex.chars else blockHeaderHex
    throw (.fetch (.error (badMethod ++ " returned malformed block hex for " ++ blockhash ++
      " (string length " ++ toString badValue.length ++ ")")))
  else
    (stripAuxPowFromBlockHex js blockHeaderHex blockHex).mapError (fun err =>
      .auxPowParseFailure
        ("There were problems getting a block hex without auxpow. " ++ err.message) err)

/-- `value.toString(16).padStart(2, "0")` -/
def paddedHex (value : ℕ) : List Char :=
  let digits := Nat.toDigits 16 value
  List.replicate (2 - digits.length) '0' ++ digits

def encodeVarintHex (value : ℕ) : Except Thrown (List Char) :=
  if value < 0xFD then return paddedHex value
  else if value ≤ 0xFFFF then return hexOf (0xFD :: leBytes 2 value)
  else if value ≤ 0xFFFFFFFF then return hexOf (0xFE :: leBytes 4 value)
  else throw (.error ("encodeVarintHex: value out of supported range: " ++ toString value))

/-- The transactions, each of which has to be there. -/
def requireRaw : List String → List (Option (List Char)) → Except Thrown (List (List Char))
  | txid :: txids, txHex :: txHexes =>
      match txHex with
      | none | some [] => throw (.error ("no raw tx for in-block txid " ++ txid))
      | some txHex     => return txHex :: (← requireRaw txids txHexes)
  | _,             _                => return []

def getBlockReassembled (fetches : BlockFetches) : Except Thrown (List Char) :=
  Except.mapError (fun err => .error
      ("There were problems reassembling a block without auxpow. " ++ err.message)) <| do
    let headerHex := (← fetches.getBlockHeader).take 160
    match ← fetches.getBlockVerbose with
    | none       => throw (.error "verbose getblock returned no tx array")
    | some txids => do
        let txHexes ← requireRaw txids (← txids.mapM fetches.getRawTransaction)
        let count ← encodeVarintHex txHexes.length
        return headerHex ++ (count ++ txHexes.flatten)

/-! ## Section 4: The version bit -/

/-- Bit `0x100` of the version, the first four bytes. -/
def hasAuxPowBit (bs : List UInt8) : Bool := 4 ≤ bs.length && (leNat (bs.take 4)).testBit 8

/-- The codes of a hex digit. -/
theorem toNat_of_isHexDigit {c : Char} (h : isHexDigit c = true) :
    (48 ≤ c.toNat ∧ c.toNat ≤ 57) ∨ (65 ≤ c.toNat ∧ c.toNat ≤ 70) ∨
      (97 ≤ c.toNat ∧ c.toNat ≤ 102) := by
  unfold isHexDigit isLowerHexDigit at h
  simp only [Bool.or_eq_true, Bool.and_eq_true, decide_eq_true_eq] at h
  rcases h with (hdigit | hlower) | hupper
  · exact .inl hdigit
  · exact .inr (.inr hlower)
  · exact .inr (.inl hupper)

theorem hexValue_lt {c : Char} (h : isHexDigit c = true) : hexValue c < 16 := by
  have hcode := toNat_of_isHexDigit h
  have hnine : c ≤ '9' ↔ c.toNat ≤ 57 := Iff.rfl
  have hF : c ≤ 'F' ↔ c.toNat ≤ 70 := Iff.rfl
  unfold hexValue
  split_ifs with hc hc'
  · rw [hnine] at hc
    omega
  · rw [hnine] at hc
    rw [hF] at hc'
    omega
  · rw [hF] at hc'
    omega

theorem isHexDigit_ne {c d : Char} (h : isHexDigit c = true) (hd : isHexDigit d = false) : c ≠ d := by
  intro heq
  rw [heq, hd] at h
  cases h

/-- A number of eight digits is read as it is. -/
theorem parseInt16_digits {digits : List Char} (hdigits : ∀ c ∈ digits, isHexDigit c = true)
    (htwo : 2 ≤ digits.length) : parseInt16 digits = some (hexNumber digits : ℤ) := by
  obtain ⟨a, b, rest, rfl⟩ : ∃ a b rest, digits = a :: b :: rest := by
    match digits, htwo with
    | a :: b :: rest, _ => exact ⟨a, b, rest, rfl⟩
  have ha := hdigits a List.mem_cons_self
  have hb := hdigits b (List.mem_cons_of_mem _ List.mem_cons_self)
  have hspace : isWhitespace a = false := by
    have hcode := toNat_of_isHexDigit ha
    unfold isWhitespace
    simp only [List.mem_cons, List.not_mem_nil, or_false, decide_eq_false_iff_not]
    omega
  have hnoPrefix : dropHexPrefix (a :: b :: rest) = a :: b :: rest := by
    unfold dropHexPrefix
    split
    · next heq => exact absurd (List.cons.inj (List.cons.inj heq).2).1 (isHexDigit_ne hb rfl)
    · next heq => exact absurd (List.cons.inj (List.cons.inj heq).2).1 (isHexDigit_ne hb rfl)
    · rfl
  have hall : (a :: b :: rest).takeWhile isHexDigit = a :: b :: rest := by
    have happend : ((a :: b :: rest) ++ []).takeWhile isHexDigit =
        (a :: b :: rest) ++ [].takeWhile isHexDigit := List.takeWhile_append_of_pos hdigits
    simpa using happend
  have hparse : parseDigits (a :: b :: rest) = some (hexNumber (a :: b :: rest)) := by
    unfold parseDigits
    rw [hnoPrefix, hall]
    rfl
  unfold parseInt16
  rw [List.dropWhile_cons_of_neg (by simp [hspace])]
  split
  · next heq => exact absurd (List.cons.inj heq).1 (isHexDigit_ne ha rfl)
  · next heq => exact absurd (List.cons.inj heq).1 (isHexDigit_ne ha rfl)
  · rw [hparse]
    rfl

/-- Bit `0x100` of a number turned around is bit sixteen. -/
theorem turned_and (v : BitVec 32) : (((v &&& 0xFF) <<< 24) ||| (((v.sshiftRight 8) &&& 0xFF) <<< 16) |||
    (((v.sshiftRight 16) &&& 0xFF) <<< 8) ||| ((v.sshiftRight 24) &&& 0xFF)) &&& 0x100 ≠ 0 ↔
      v.getLsbD 16 = true := by
  have hbit : (0x100 : BitVec 32) = BitVec.twoPow 32 8 := rfl
  have hnonzero : BitVec.twoPow 32 8 ≠ 0 := by decide
  rw [hbit, BitVec.and_twoPow]
  have hget : (((v &&& 0xFF) <<< 24) ||| (((v.sshiftRight 8) &&& 0xFF) <<< 16) |||
      (((v.sshiftRight 16) &&& 0xFF) <<< 8) ||| ((v.sshiftRight 24) &&& 0xFF)).getLsbD 8 =
        v.getLsbD 16 := by
    have hshift : (v.sshiftRight 16).getLsbD 0 = v.getLsbD 16 := by
      rw [BitVec.getLsbD_sshiftRight]
      rfl
    simpa using hshift
  rw [hget]
  by_cases hv : v.getLsbD 16 = true
  · rw [if_pos hv]
    exact iff_of_true hnonzero hv
  · rw [if_neg hv]
    exact iff_of_false (fun hne => hne rfl) hv

/-- The bit is found where it is set. -/
theorem readVersion_of_bit {cs : List Char} (h : hasAuxPowBit (fromHex cs) = true) :
    8 ≤ cs.length ∧ readVersion cs &&& 0x100 ≠ 0 := by
  unfold hasAuxPowBit at h
  simp only [Bool.and_eq_true, decide_eq_true_eq] at h
  obtain ⟨hlength, hbit⟩ := h
  obtain ⟨b₀, b₁, b₂, b₃, bs, hbs⟩ : ∃ b₀ b₁ b₂ b₃ bs, fromHex cs = b₀ :: b₁ :: b₂ :: b₃ :: bs := by
    match fromHex cs, hlength with
    | b₀ :: b₁ :: b₂ :: b₃ :: bs, _ => exact ⟨b₀, b₁, b₂, b₃, bs, rfl⟩
  rw [hbs] at hbit
  obtain ⟨x₀, y₀, cs₁, rfl, hx₀, hy₀, hb₀, h₁⟩ := fromHex_cons_eq hbs
  obtain ⟨x₁, y₁, cs₂, rfl, hx₁, hy₁, hb₁, h₂⟩ := fromHex_cons_eq h₁
  obtain ⟨x₂, y₂, cs₃, rfl, hx₂, hy₂, hb₂, h₃⟩ := fromHex_cons_eq h₂
  obtain ⟨x₃, y₃, cs₄, rfl, hx₃, hy₃, hb₃, -⟩ := fromHex_cons_eq h₃
  refine ⟨by simp only [List.length_cons]; omega, ?_⟩
  have hdigits : ∀ c ∈ [x₀, y₀, x₁, y₁, x₂, y₂, x₃, y₃], isHexDigit c = true := by
    simp [hx₀, hy₀, hx₁, hy₁, hx₂, hy₂, hx₃, hy₃]
  unfold readVersion
  rw [turned_and]
  show (BitVec.ofInt 32 ((parseInt16 [x₀, y₀, x₁, y₁, x₂, y₂, x₃, y₃]).getD 0)).getLsbD 16 = true
  rw [parseInt16_digits hdigits (by simp), Option.getD_some, BitVec.ofInt_natCast, BitVec.getLsbD_ofNat]
  have hv₀ := hexValue_lt hx₀
  have hw₀ := hexValue_lt hy₀
  have hv₁ := hexValue_lt hx₁
  have hw₁ := hexValue_lt hy₁
  have hv₂ := hexValue_lt hx₂
  have hw₂ := hexValue_lt hy₂
  have hv₃ := hexValue_lt hx₃
  have hw₃ := hexValue_lt hy₃
  have hb₀' : b₀.toNat < 256 := b₀.toNat_lt
  -- the bit is the lowest one of the second byte
  have hodd : leNat [b₀, b₁, b₂, b₃] / 256 % 2 = (16 * hexValue x₁ + hexValue y₁) % 2 := by
    have hval : b₁.toNat = 16 * hexValue x₁ + hexValue y₁ := by
      rw [hb₁, UInt8.toNat_ofNat']
      omega
    simp only [leNat]
    omega
  rw [Nat.testBit_eq_decide_div_mod_eq, decide_eq_true_eq] at hbit
  rw [Nat.testBit_eq_decide_div_mod_eq]
  have hbit' : (16 * hexValue x₁ + hexValue y₁) % 2 = 1 := by
    rw [← hodd]
    exact hbit
  simp only [hexNumber, List.foldl_cons, List.foldl_nil]
  rw [Bool.and_eq_true]
  refine ⟨rfl, decide_eq_true ?_⟩
  omega

/-! ## Section 5: Whole blocks come back -/

variable {js}

theorem spells_of_whole {P : List Char} (h : assertWholeBlock js P = .ok ()) :
    Spells P (fromHex P) := by
  unfold assertWholeBlock at h
  simp only at h
  split_ifs at h with hlength
  exact ⟨rfl, by omega⟩

theorem blockFromBuffer_of_whole {P : List Char} (h : assertWholeBlock js P = .ok ()) :
    ∃ block, js.blockFromBuffer (fromHex P) = .ok block := by
  unfold assertWholeBlock at h
  simp only at h
  split_ifs at h with hlength
  cases hblock : js.blockFromBuffer (fromHex P) with
  | error message =>
    rw [hblock] at h
    cases h
  | ok block => exact ⟨block, rfl⟩

/-- Whatever was read: what is answered behind a check was whole. -/
theorem bind_assertWholeBlock {stripped out : List Char}
    (h : (do assertWholeBlock js stripped; return stripped : Except Thrown (List Char)) = .ok out) :
    assertWholeBlock js out = .ok () := by
  cases hwhole : assertWholeBlock js stripped with
  | error e =>
    rw [hwhole] at h
    cases h
  | ok u =>
    rw [hwhole] at h
    cases h
    exact hwhole

/-- On any input, what is answered for a block with the version bit is a whole block. -/
theorem strip_whole {headerHex : List Char} {blockHex : JsString} {out : List Char}
    (hbit : hasAuxPowBit (fromHex blockHex.chars) = true)
    (h : stripAuxPowFromBlockHex js headerHex blockHex = .ok out) : assertWholeBlock js out = .ok () := by
  unfold stripAuxPowFromBlockHex at h
  split_ifs at h with hlong hversion
  · exact bind_assertWholeBlock h
  · cases hskip : skipAuxPow (Buffer.fromHex blockHex) 80 with
    | error e =>
      rw [hskip] at h
      cases h
    | ok afterAuxPow =>
      rw [hskip] at h
      exact bind_assertWholeBlock h
  · exact absurd (readVersion_of_bit hbit) hversion

/-- So is what the connector answers for it. -/
theorem getBlockWithoutAuxPow_whole {fetches : BlockFetches} {blockhash : String} {blockHex : JsString}
    {out : List Char} (hblock : fetches.getBlock = .ok blockHex)
    (hbit : hasAuxPowBit (fromHex blockHex.chars) = true)
    (h : getBlockWithoutAuxPow js fetches blockhash = .ok out) : assertWholeBlock js out = .ok () := by
  unfold getBlockWithoutAuxPow at h
  cases hheader : fetches.getBlockHeader with
  | error e =>
    rw [hheader] at h
    cases h
  | ok blockHeaderHex =>
    rw [hheader, hblock] at h
    simp only [bind, Except.bind, Except.mapError] at h
    split_ifs at h with hhex
    cases hstrip : stripAuxPowFromBlockHex js blockHeaderHex blockHex with
    | error e =>
      rw [hstrip] at h
      cases h
    | ok stripped =>
      rw [hstrip] at h
      cases h
      exact strip_whole hbit hstrip

section Inserted

variable {P aHex : List Char} {a : AuxPow} {blockHex : JsString}

/-- Cut at the right place, the section is gone. -/
theorem cutBehindHeader_inserted (hP : 160 ≤ P.length)
    (hblock : blockHex.chars = P.take 160 ++ (aHex ++ P.drop 160)) :
    cutBehindHeader blockHex (160 + aHex.length) = P := by
  have hheader : (P.take 160).length = 160 := List.length_take_of_le hP
  have htake : blockHex.chars.take 160 = P.take 160 := by
    rw [hblock]
    exact List.take_left' hheader
  have hdrop : blockHex.chars.drop (160 + aHex.length) = P.drop 160 := by
    rw [hblock, ← List.append_assoc]
    exact List.drop_left' (by rw [List.length_append, hheader])
  rw [cutBehindHeader, htake, hdrop, List.take_append_drop]

/-- With the section in the header the header's length says where to cut. -/
theorem strip_longHeader (hwhole : assertWholeBlock js P = .ok ()) (hP : 160 ≤ P.length)
    (haHex : 0 < aHex.length) (hblock : blockHex.chars = P.take 160 ++ (aHex ++ P.drop 160)) :
    stripAuxPowFromBlockHex js (P.take 160 ++ aHex) blockHex = .ok P := by
  have hlength : (P.take 160 ++ aHex).length = 160 + aHex.length := by
    rw [List.length_append, List.length_take_of_le hP]
  unfold stripAuxPowFromBlockHex
  rw [if_pos (by omega), hlength, Nat.add_sub_cancel_left]
  simp only [cutBehindHeader_inserted hP hblock, hwhole]
  rfl

/-- Without it, the walk does. -/
theorem strip_shortHeader (hwhole : assertWholeBlock js P = .ok ()) (hP : 160 ≤ P.length)
    (hbit : hasAuxPowBit (fromHex P) = true) (ha : Spells aHex a.bytes)
    (hblock : blockHex.chars = P.take 160 ++ (aHex ++ P.drop 160)) :
    stripAuxPowFromBlockHex js (P.take 160) blockHex = .ok P := by
  have hspells := spells_of_whole hwhole
  have heighty : 80 ≤ (fromHex P).length := by
    have := hspells.2
    omega
  obtain ⟨hheader, hbody⟩ := hspells.split heighty
  have hbytes : fromHex blockHex.chars =
      (fromHex P).take 80 ++ (a.bytes ++ (fromHex P).drop 80) := by
    rw [hblock]
    exact (hheader.append (ha.append hbody)).1
  have hwalk : skipAuxPow (Buffer.fromHex blockHex) 80 = .ok (80 + a.bytes.length) := by
    have hheaderLength : ((fromHex P).take 80).length = 80 := List.length_take_of_le heighty
    have hat : At (Buffer.fromHex blockHex).bytes 80 (a.bytes ++ (fromHex P).drop 80) := by
      refine ⟨?_, ?_⟩
      · show 80 ≤ (fromHex blockHex.chars).length
        rw [hbytes, List.length_append, hheaderLength]
        omega
      · show (fromHex blockHex.chars).drop 80 = _
        rw [hbytes]
        exact List.drop_left' hheaderLength
    exact skipAuxPow_at a hat
  have hbit' : hasAuxPowBit (fromHex blockHex.chars) = true := by
    -- the version stands in the header
    have hfour : (fromHex blockHex.chars).take 4 = (fromHex P).take 4 := by
      have htake : ((fromHex P).take 80).take 4 = (fromHex P).take 4 := by
        rw [List.take_take]
        rfl
      rw [hbytes, List.take_append_of_le_length, htake]
      rw [List.length_take_of_le heighty]
      decide
    unfold hasAuxPowBit at hbit ⊢
    rw [hfour]
    simp only [Bool.and_eq_true, decide_eq_true_eq] at hbit ⊢
    refine ⟨?_, hbit.2⟩
    rw [hbytes, List.length_append, List.length_take_of_le heighty]
    omega
  have hstop : (80 + a.bytes.length) * 2 = 160 + aHex.length := by
    rw [ha.2]
    omega
  unfold stripAuxPowFromBlockHex
  rw [if_neg (by rw [List.length_take_of_le hP]; omega), if_pos (readVersion_of_bit hbit'), hwalk]
  simp only [bind, Except.bind, hstop, cutBehindHeader_inserted hP hblock, hwhole]
  rfl

end Inserted

/-! ## Section 6: Reassembling -/

/-- A block in hex as nodes write it: the header, a count, and the transactions one
    behind the other. -/
def WrittenAs (P : List Char) (header : BlockHeader) (txs : List Transaction) : Prop :=
  P = hexOf (header.bytes ++ (compactSize txs.length ++ txs.flatMap Transaction.plain))

/-- The fetches answer the parts of the block `P`, its header with or without the
    section. -/
structure BlockFetches.Serve (fetches : BlockFetches) (P aHex : List Char) (txs : List Transaction) :
    Prop where
  header : fetches.getBlockHeader = .ok (P.take 160) ∨ fetches.getBlockHeader = .ok (P.take 160 ++ aHex)
  raw : ∃ txids, fetches.getBlockVerbose = .ok (some txids) ∧
    txids.map fetches.getRawTransaction = txs.map (fun t => .ok (some (hexOf t.plain)))

/-- No string is longer. -/
def MAX_STRING_LENGTH : ℕ := 2 ^ 29 - 24

theorem paddedHex_eq {n : ℕ} (h : n < 0xFD) : paddedHex n = hexOf [UInt8.ofNat n] := by
  revert n
  decide +kernel

theorem encodeVarintHex_eq {n : ℕ} (h : n ≤ 0xFFFFFFFF) :
    encodeVarintHex n = .ok (hexOf (compactSize n)) := by
  unfold encodeVarintHex compactSize
  by_cases h₁ : n < 0xFD
  · rw [if_pos h₁, if_pos h₁, paddedHex_eq h₁]
    rfl
  · rw [if_neg h₁, if_neg h₁]
    by_cases h₂ : n ≤ 0xFFFF
    · rw [if_pos h₂, if_pos (by omega)]
      rfl
    · rw [if_neg h₂, if_pos h, if_neg (show ¬ n < 2 ^ 16 by omega), if_pos (by omega)]
      rfl

/-- What is fetched for the transactions, one after the other. -/
theorem mapM_getRawTransaction {fetches : BlockFetches} {txids : List String} {txs : List Transaction}
    (h : txids.map fetches.getRawTransaction = txs.map (fun t => .ok (some (hexOf t.plain)))) :
    txids.mapM fetches.getRawTransaction = .ok (txs.map (fun t => some (hexOf t.plain))) ∧
      requireRaw txids (txs.map (fun t => some (hexOf t.plain))) =
        .ok (txs.map (fun t => hexOf t.plain)) := by
  induction txids generalizing txs with
  | nil =>
    cases txs with
    | nil => exact ⟨rfl, rfl⟩
    | cons t txs => cases h
  | cons txid txids ih =>
    cases txs with
    | nil => cases h
    | cons t txs =>
      simp only [List.map_cons, List.cons.injEq] at h
      obtain ⟨hmap, hrequire⟩ := ih h.2
      have hne : ∃ c cs, hexOf t.plain = c :: cs := by
        apply List.exists_cons_of_ne_nil
        intro hnil
        have hlength := congrArg List.length hnil
        have hten := Transaction.length_plain t
        rw [length_hexOf, List.length_nil] at hlength
        omega
      obtain ⟨c, cs, hcs⟩ := hne
      refine ⟨?_, ?_⟩
      · rw [List.mapM_cons, h.1, hmap]
        rfl
      · simp only [List.map_cons, requireRaw, hcs, hrequire]
        rfl

theorem flatten_hexOf (txs : List Transaction) :
    (txs.map (fun t => hexOf t.plain)).flatten = hexOf (txs.flatMap Transaction.plain) := by
  induction txs with
  | nil => rfl
  | cons t txs ih =>
    rw [List.map_cons, List.flatten_cons, ih, List.flatMap_cons, hexOf_append]

/-- The parts of a block, put together, are the block. -/
theorem getBlockReassembled_eq {fetches : BlockFetches} {P aHex : List Char} {header : BlockHeader}
    {txs : List Transaction} (hwritten : WrittenAs P header txs) (hstring : P.length ≤ MAX_STRING_LENGTH)
    (hserve : fetches.Serve P aHex txs) : getBlockReassembled fetches = .ok P := by
  have hheaderHex : P.take 160 = hexOf header.bytes := by
    rw [hwritten, hexOf_append]
    exact List.take_left' (by rw [length_hexOf, BlockHeader.length_bytes])
  have htwenty := mul_length_le_flatMap (fun t (_ : t ∈ txs) => Transaction.length_plain t)
  have hcount : encodeVarintHex txs.length = .ok (hexOf (compactSize txs.length)) := by
    apply encodeVarintHex_eq
    rw [hwritten, length_hexOf] at hstring
    simp only [List.length_append] at hstring
    unfold MAX_STRING_LENGTH at hstring
    omega
  obtain ⟨txids, hverbose, hraw⟩ := hserve.raw
  obtain ⟨hmap, hrequire⟩ := mapM_getRawTransaction hraw
  have hheader : ∃ headerHex, fetches.getBlockHeader = .ok headerHex ∧
      headerHex.take 160 = hexOf header.bytes := by
    rcases hserve.header with hshort | hlong
    · refine ⟨_, hshort, ?_⟩
      rw [List.take_take, Nat.min_self, hheaderHex]
    · refine ⟨_, hlong, ?_⟩
      rw [hheaderHex]
      exact List.take_left' (by rw [length_hexOf, BlockHeader.length_bytes])
  obtain ⟨headerHex, hget, htake⟩ := hheader
  unfold getBlockReassembled
  simp only [hget, hverbose, hmap, hrequire, htake, bind, Except.bind, List.length_map, hcount,
    flatten_hexOf, Except.mapError, pure, Except.pure]
  rw [hwritten, hexOf_append, hexOf_append]

/-- **Stripping undoes inserting.** A whole block comes back from the block with an AuxPoW
    section behind its header, whether the header came with the section or without it,
    and out of its transactions where it is written as nodes write it; on any input what
    is answered for a block with the version bit is a whole block. -/
theorem auxPow_undone
    (hsmall : ∀ bs block, js.blockFromBuffer bs = .ok block → 80 ≤ bs.length)
    {P aHex : List Char} {a : AuxPow} {blockHex : JsString}
    (hwhole : assertWholeBlock js P = .ok ()) (hbit : hasAuxPowBit (fromHex P) = true)
    (ha : Spells aHex a.bytes) (hblock : blockHex.chars = P.take 160 ++ (aHex ++ P.drop 160)) :
    stripAuxPowFromBlockHex js (P.take 160) blockHex = .ok P ∧
    stripAuxPowFromBlockHex js (P.take 160 ++ aHex) blockHex = .ok P ∧
    (∀ header txs fetches, WrittenAs P header txs → P.length ≤ MAX_STRING_LENGTH →
      BlockFetches.Serve fetches P aHex txs → getBlockReassembled fetches = .ok P) ∧
    ∀ headerHex blockHex out, hasAuxPowBit (fromHex (JsString.chars blockHex)) = true →
      stripAuxPowFromBlockHex js headerHex blockHex = .ok out → assertWholeBlock js out = .ok () := by
  obtain ⟨block, hread⟩ := blockFromBuffer_of_whole hwhole
  have heighty := hsmall _ _ hread
  have hP : 160 ≤ P.length := by
    have := length_fromHex_le P
    omega
  have haHex : 0 < aHex.length := by
    have hhash : 0 < a.bytes.length := by
      simp only [AuxPow.bytes, List.length_append, Vector.length_toList]
      omega
    rw [ha.2]
    omega
  exact ⟨strip_shortHeader hwhole hP hbit ha hblock, strip_longHeader hwhole hP haHex hblock,
    fun header txs fetches hwritten hstring hserve => getBlockReassembled_eq hwritten hstring hserve,
    fun headerHex blockHex out hbit h => strip_whole hbit h⟩

namespace Sample

/-- Read `n` transactions, each where the shortest form of the one before it would end. -/
def readTransactions : ℕ → List UInt8 → Except String (List Transaction)
  | 0,     _  => .ok []
  | n + 1, bs => do
    let t ← transactionFromPlain bs true
    let txs ← readTransactions n (bs.drop t.plain.length)
    return t :: txs

/-- `Block.fromBuffer` -/
def blockFromPlain (bs : List UInt8) : Except String Block :=
  if h : bs.length ≤ MAX_SAFE_INTEGER then
    if bs.length < 80 then .error "Buffer too small (< 80 bytes)"
    else
      match readHeader ⟨bs, h⟩ with
      | .error e    => .error e.message
      | .ok header =>
          if bs.length = 80 then .ok ⟨header, none, none⟩
          else do
            let (n, width) ← decodeVaruint bs 80
            let txs ← readTransactions n (bs.drop (80 + width))
            return ⟨header, some txs, none⟩
  else .error "Invalid array length"

/-- `block.byteLength()` -/
def plainByteLength (block : Block) : ℕ :=
  80 + block.transactions.elim 0 (fun txs =>
    (compactSize txs.length).length + (txs.map (fun t => t.plain.length)).sum)

def coinbaseOf (locktime : UInt32) : Transaction where
  version := 1
  ins := [⟨Vector.replicate 32 0, 0xffffffff, [], 0xffffffff, []⟩]
  outs := [⟨0, []⟩]
  locktime := locktime

/-- The double hash of `coinbaseOf 0`. -/
def rootOfOne : Vector UInt8 32 := #v[
  0xe1, 0x77, 0xc4, 0x2f, 0x05, 0xa6, 0x59, 0x13, 0x8e, 0x28, 0x08, 0x73, 0x26, 0xb6, 0x87, 0x50,
  0x4d, 0x12, 0x3c, 0x58, 0x34, 0xe2, 0x1a, 0x49, 0xf3, 0x06, 0xa2, 0x4e, 0xab, 0xd2, 0xb7, 0x2f]

/-- The root over `coinbaseOf 65536` and `coinbaseOf 0`. -/
def rootOfTwo : Vector UInt8 32 := #v[
  0x89, 0x7d, 0x48, 0x28, 0xc2, 0x92, 0x6b, 0x86, 0xa5, 0x5f, 0x37, 0x54, 0xa2, 0xa8, 0xd4, 0x27,
  0x48, 0xf0, 0xd4, 0xa2, 0x87, 0xc5, 0xa6, 0xf4, 0x7b, 0x76, 0x1c, 0xfc, 0xab, 0xdb, 0x03, 0xe7]

def bitcoinjs : BitcoinJs := BitcoinJs.ofPlain
  (fun txs =>
    if txs = [coinbaseOf 0] then rootOfOne
    else if txs = [coinbaseOf 65536, coinbaseOf 0] then rootOfTwo
    else Vector.replicate 32 0)
  (fun _ => none) blockFromPlain plainByteLength

def headerOf (merkleRoot : Vector UInt8 32) : BlockHeader where
  version := 0x620102
  prevHash := Vector.replicate 32 0
  merkleRoot := merkleRoot
  timestamp := 0
  bits := 0
  nonce := 0

theorem whole_of_isOk {P : List Char} (h : (assertWholeBlock bitcoinjs P).toBool = true) :
    assertWholeBlock bitcoinjs P = .ok () := by
  cases hwhole : assertWholeBlock bitcoinjs P with
  | error e =>
    rw [hwhole] at h
    cases h
  | ok u => rfl

/-- A block of one transaction. -/
def pureBlock : List Char :=
  hexOf ((headerOf rootOfOne).bytes ++ (compactSize 1 ++ [coinbaseOf 0].flatMap Transaction.plain))

def auxPow : AuxPow where
  coinbase := coinbaseOf 7
  parentHash := Vector.replicate 32 1
  coinbaseBranch := [Vector.replicate 32 2]
  coinbaseIndex := 0
  chainBranch := []
  chainIndex := 0
  parentHeader := headerOf rootOfOne
  has_input := nofun

def merged : JsString where
  chars := pureBlock.take 160 ++ (hexOf auxPow.bytes ++ pureBlock.drop 160)
  safe := by decide +kernel

def fetches : BlockFetches where
  getBlockHeader := .ok (pureBlock.take 160)
  getBlock := .ok merged
  getBlockVerbose := .ok (some ["only"])
  getRawTransaction := fun _ => .ok (some (hexOf (coinbaseOf 0).plain))

theorem eighty_le_blockFromPlain {bs : List UInt8} {block : Block}
    (h : bitcoinjs.blockFromBuffer bs = .ok block) : 80 ≤ bs.length := by
  have hread : blockFromPlain bs = .ok block := h
  unfold blockFromPlain at hread
  split_ifs at hread with hsafe hsmall
  · omega
  · omega

theorem merged_undone :
    stripAuxPowFromBlockHex bitcoinjs (pureBlock.take 160) merged = .ok pureBlock ∧
    stripAuxPowFromBlockHex bitcoinjs (pureBlock.take 160 ++ hexOf auxPow.bytes) merged = .ok pureBlock ∧
    getBlockReassembled fetches = .ok pureBlock := by
  obtain ⟨hshort, hlong, hreassembled, -⟩ := auxPow_undone
    (fun _ _ => eighty_le_blockFromPlain) (whole_of_isOk (P := pureBlock) (by decide +kernel))
    (by decide +kernel) (spells_hexOf auxPow.bytes) (show merged.chars = _ from rfl)
  refine ⟨hshort, hlong, hreassembled (headerOf rootOfOne) [coinbaseOf 0] fetches rfl
    (by decide +kernel) ⟨.inl rfl, ["only"], rfl, rfl⟩⟩

/-- The first of two transactions has its count of inputs in three bytes, and the second
    begins in its lock time. -/
def overlapping : List Char :=
  hexOf ((headerOf rootOfTwo).bytes ++ ([0x02] ++ ([0x01, 0x00, 0x00, 0x00] ++ ([0xFD, 0x01, 0x00] ++
    (((coinbaseOf 65536).plain.drop 5).dropLast.dropLast ++ (coinbaseOf 0).plain)))))

def overlappingFetches : BlockFetches where
  getBlockHeader := .ok (overlapping.take 160)
  getBlock := .error .outOfRange
  getBlockVerbose := .ok (some ["first", "second"])
  getRawTransaction := fun txid =>
    .ok (some (hexOf (coinbaseOf (if txid = "first" then 65536 else 0)).plain))

/-- The check takes it, but it is not what its transactions make. -/
theorem overlapping_differs :
    assertWholeBlock bitcoinjs overlapping = .ok () ∧ hasAuxPowBit (fromHex overlapping) = true ∧
    (bitcoinjs.blockFromBuffer (fromHex overlapping)).toOption.bind Block.transactions =
      some [coinbaseOf 65536, coinbaseOf 0] ∧
    overlappingFetches.Serve overlapping [] [coinbaseOf 65536, coinbaseOf 0] ∧
    (getBlockReassembled overlappingFetches).toBool = true ∧
    getBlockReassembled overlappingFetches ≠ .ok overlapping := by
  refine ⟨whole_of_isOk (by decide +kernel), by decide +kernel, by decide +kernel,
    ⟨.inl rfl, _, rfl, rfl⟩, by decide +kernel, fun h => ?_⟩
  have hsame : (getBlockReassembled overlappingFetches).toOption = some overlapping := by
    rw [h]
    rfl
  revert hsame
  decide +kernel

end Sample

end XChainDecoder.Wire
