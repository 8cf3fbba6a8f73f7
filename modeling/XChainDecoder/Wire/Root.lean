import XChainDecoder.Lib.Merkle
import XChainDecoder.Wire.Strip

/-! # The body under a header

    A body is taken for that of its header when the merkle root over its transactions is
    the one in the header. The root does not say over how many leaves it was made, and
    nothing else compares the two.

    **Main theorem.** `header_determines_body_iff`: where no two pairs that were hashed
    collide, two accepted bodies of one header hold the same transactions exactly if they
    declare the same number of them. `Sample.threeAndFour`: a header with a body of three
    transactions, and with one of four. -/

namespace XChainDecoder.Wire

open Bytes

variable {js : BitcoinJs}

/-! ## Section 1: What is hashed -/

/-- What the id of a transaction is the hash of: it has no flags and no witnesses. -/
def Transaction.base (t : Transaction) : List UInt8 :=
  t.versionBytes ++ (t.vin ++ t.vout) ++ uint32Bytes t.locktime

/-- SHA-256 twice. -/
abbrev Hash256 : Type := List UInt8 → Vector UInt8 32

/-- `tx.getHash()`, the txid. -/
def Transaction.getHash (hash256 : Hash256) (t : Transaction) : Vector UInt8 32 := hash256 t.base

def txids (hash256 : Hash256) (txs : List Transaction) : List (Vector UInt8 32) :=
  txs.map (Transaction.getHash hash256)

/-- A node of the merkle tree. -/
def merkleNode (hash256 : Hash256) (left right : Vector UInt8 32) : Vector UInt8 32 :=
  hash256 (left.toList ++ right.toList)

/-- How many transactions the bytes behind a header declare. -/
def declaredCount (js : BitcoinJs) (bytes : List UInt8) : Option ℕ :=
  (js.varuintDecode bytes 80).toOption.map Prod.fst

/-- What the checks rely on bitcoinjs for: the root is the merkle root over the ids, a
    parsed header has the root that stands in its bytes, and a parsed block has as many
    transactions as it declares. -/
structure BitcoinJs.Hashes (js : BitcoinJs) (hash256 : Hash256) : Prop where
  root : ∀ txs, txs ≠ [] →
    Merkle.root (merkleNode hash256) (txids hash256 txs) = some (js.calculateMerkleRoot txs)
  header : ∀ bytes block, js.blockFromBuffer bytes = .ok block →
    block.header.merkleRoot.toList = (bytes.drop 36).take 32
  count : ∀ bytes block txs, js.blockFromBuffer bytes = .ok block → block.transactions = some txs →
    declaredCount js bytes = some txs.length

/-- A byte string behind a header that is accepted, with its transactions. -/
inductive Accepted (js : BitcoinJs) : List UInt8 → List Transaction → Prop where
  | parsed {format : WireFormat} {buf : Buffer} {block : Block} (hlong : 80 < buf.length)
      (h : blockFromBuffer js format buf = .ok block) :
      Accepted js buf.bytes (block.transactions.getD [])
  | whole {blockHex : List Char} {block : Block} (hlong : 80 < (fromHex blockHex).length)
      (h : assertWholeBlock js blockHex = .ok ())
      (hblock : js.blockFromBuffer (fromHex blockHex) = .ok block) :
      Accepted js (fromHex blockHex) (block.transactions.getD [])

/-! ## Section 2: What acceptance checks -/

/-- What every accepted body has been held to. -/
structure Checked (js : BitcoinJs) (hash256 : Hash256) (bytes : List UInt8)
    (txs : List Transaction) : Prop where
  count : declaredCount js bytes = some txs.length
  root  : ∃ root : Vector UInt8 32, root.toList = (bytes.drop 36).take 32 ∧
    Merkle.root (merkleNode hash256) (txids hash256 txs) = some root

theorem readHash_toList {buf : Buffer} {offset : ℕ} {hash : Vector UInt8 32}
    (h : readHash buf offset = .ok hash) : hash.toList = (buf.bytes.drop offset).take 32 := by
  unfold readHash at h
  split_ifs at h with hlong
  cases h
  rfl

theorem readHeader_merkleRoot {buf : Buffer} {header : BlockHeader}
    (h : readHeader buf = .ok header) : header.merkleRoot.toList = (buf.bytes.drop 36).take 32 := by
  unfold readHeader at h
  rcases bind_eq_ok h with ⟨version, -, h⟩
  rcases bind_eq_ok h with ⟨prevHash, -, h⟩
  rcases bind_eq_ok h with ⟨merkleRoot, hroot, h⟩
  rcases bind_eq_ok h with ⟨timestamp, -, h⟩
  rcases bind_eq_ok h with ⟨bits, -, h⟩
  rcases bind_eq_ok h with ⟨nonce, -, h⟩
  cases h
  exact readHash_toList hroot

/-- As many transactions are read as were asked for. -/
theorem length_readMwebBody {buf : Buffer} {n offset : ℕ} {body : BlockBody}
    (h : readMwebBody js buf n offset = .ok body) : body.transactions.length = n := by
  induction n generalizing offset body with
  | zero =>
    cases h
    rfl
  | succ n ih =>
    unfold readMwebBody at h
    rcases bind_eq_ok h with ⟨flagged, hflagged, h⟩
    by_cases hlast : flagged = true
    · -- only the last one is looked at for the flag
      rw [if_pos hlast] at h
      rcases bind_eq_ok h with ⟨read, -, h⟩
      cases h
      by_cases hn : n = 0
      · rw [hn]
        rfl
      · rw [if_neg hn] at hflagged
        cases hflagged
        cases hlast
    · rw [if_neg hlast] at h
      rcases bind_eq_ok h with ⟨tx, -, h⟩
      rcases bind_eq_ok h with ⟨rest, hrest, h⟩
      cases h
      show rest.transactions.length + 1 = n + 1
      rw [ih hrest]

theorem count_readMwebTransactions {buf : Buffer} {body : BlockBody}
    (h : readMwebTransactions js buf 80 = .ok body) :
    declaredCount js buf.bytes = some body.transactions.length := by
  unfold readMwebTransactions at h
  unfold declaredCount
  cases hcount : js.varuintDecode buf.bytes 80 with
  | error message =>
    rw [hcount] at h
    cases h
  | ok counted =>
    rw [hcount] at h
    simp only [fromBitcoinJs, Except.mapError, bind, Except.bind] at h
    split_ifs at h with hmany
    rw [length_readMwebBody h]
    rfl

/-- A body that passes the checks has transactions, and the root of its header. -/
theorem root_of_assertBlockBodyIntact {header : BlockHeader} {txs : List Transaction}
    {bufferLength bodyEnd : ℕ} {extensionFollows : Bool}
    (h : assertBlockBodyIntact js header txs bufferLength bodyEnd extensionFollows = .ok ()) :
    txs ≠ [] ∧ js.calculateMerkleRoot txs = header.merkleRoot := by
  unfold assertBlockBodyIntact at h
  split_ifs at h with hnone htrailing hroot
  exact ⟨fun hnil => hnone (by rw [hnil]; exact Nat.zero_lt_one), not_not.mp hroot⟩

theorem wrapParse_eq_ok {α : Type} {what : String} {r : Except Thrown α} {a : α}
    (h : wrapParse what r = .ok a) : r = .ok a := by
  cases r with
  | error e => cases h
  | ok b =>
    cases h
    rfl

theorem fromBitcoinJs_eq_ok {α : Type} {r : Except String α} {a : α} (h : fromBitcoinJs r = .ok a) :
    r = .ok a := by
  cases r with
  | error e => cases h
  | ok b =>
    cases h
    rfl

section Checked

variable {hash256 : Hash256}

/-- What bitcoinjs has parsed is checked where its root was compared. -/
theorem checked_of_root (hjs : js.Hashes hash256) {bytes : List UInt8} {block : Block}
    (hblock : js.blockFromBuffer bytes = .ok block) (hne : block.transactions.getD [] ≠ [])
    (hroot : js.calculateMerkleRoot (block.transactions.getD []) = block.header.merkleRoot) :
    Checked js hash256 bytes (block.transactions.getD []) := by
  refine ⟨?_, block.header.merkleRoot, hjs.header _ _ hblock, ?_⟩
  · cases htxs : block.transactions with
    | none =>
      rw [htxs] at hne
      exact absurd rfl hne
    | some txs => exact hjs.count _ _ _ hblock htxs
  · rw [← hroot]
    exact hjs.root _ hne

theorem checked_of_plain (hjs : js.Hashes hash256) {buf : Buffer} {block : Block}
    (hlong : buf.length ≠ 80)
    (h : (wrapParse "Block transaction parse failed: " (fromBitcoinJs (js.blockFromBuffer buf.bytes)) >>=
      fun plainBlock =>
        if buf.length = 80 then pure plainBlock
        else do
          assertBlockBodyIntact js plainBlock.header (plainBlock.transactions.getD []) buf.length
            (js.blockByteLength plainBlock) false
          return plainBlock) = .ok block) :
    Checked js hash256 buf.bytes (block.transactions.getD []) := by
  rcases bind_eq_ok h with ⟨plainBlock, hparse, h⟩
  rw [if_neg hlong] at h
  rcases bind_eq_ok h with ⟨u, hintact, h⟩
  cases h
  obtain ⟨hne, hroot⟩ := root_of_assertBlockBodyIntact hintact
  exact checked_of_root hjs (fromBitcoinJs_eq_ok (wrapParse_eq_ok hparse)) hne hroot

theorem checked_of_blockFromBuffer (hjs : js.Hashes hash256) {format : WireFormat} {buf : Buffer}
    {block : Block} (hlong : 80 < buf.length) (h : blockFromBuffer js format buf = .ok block) :
    Checked js hash256 buf.bytes (block.transactions.getD []) := by
  have hne : buf.length ≠ 80 := by omega
  cases format with
  | mweb =>
    unfold blockFromBuffer at h
    rw [if_neg (by omega)] at h
    rcases bind_eq_ok h with ⟨header, hheader, h⟩
    rw [if_neg hne] at h
    rcases bind_eq_ok h with ⟨body, hbody, h⟩
    rcases bind_eq_ok h with ⟨u, hintact, h⟩
    cases h
    obtain ⟨hsome, hroot⟩ := root_of_assertBlockBodyIntact hintact
    refine ⟨count_readMwebTransactions (wrapParse_eq_ok hbody), header.merkleRoot,
      readHeader_merkleRoot hheader, ?_⟩
    rw [← hroot]
    exact hjs.root _ hsome
  | default => exact checked_of_plain hjs hne h
  | auxpow => exact checked_of_plain hjs hne h

theorem checked_of_whole (hjs : js.Hashes hash256) {blockHex : List Char} {block : Block}
    (h : assertWholeBlock js blockHex = .ok ())
    (hblock : js.blockFromBuffer (fromHex blockHex) = .ok block) :
    Checked js hash256 (fromHex blockHex) (block.transactions.getD []) := by
  unfold assertWholeBlock at h
  dsimp only at h
  rw [hblock] at h
  dsimp only at h
  split_ifs at h with hhex hnone hused hroot
  refine checked_of_root hjs hblock (fun hnil => hnone ?_) (not_not.mp hroot)
  rw [hnil]
  exact Nat.zero_lt_one

theorem Accepted.checked (hjs : js.Hashes hash256) {bytes : List UInt8} {txs : List Transaction}
    (h : Accepted js bytes txs) : Checked js hash256 bytes txs := by
  cases h with
  | parsed hlong h => exact checked_of_blockFromBuffer hjs hlong h
  | whole hlong h hblock => exact checked_of_whole hjs h hblock

end Checked

/-! ## Section 3: Two bodies of one header -/

/-- The root stands in the header. -/
theorem root_of_take {bytes bytes' : List UInt8} (h : bytes.take 80 = bytes'.take 80) :
    (bytes.drop 36).take 32 = (bytes'.drop 36).take 32 := by
  have hinside : ∀ bytes : List UInt8,
      (bytes.drop 36).take 32 = ((bytes.take 80).drop 36).take 32 := by
    intro bytes
    rw [List.drop_take, List.take_take]
    rfl
  rw [hinside, h, ← hinside]

/-- **Two bodies of one header.** For every header and any two accepted byte strings that
    start with it, if no two of the pairs hashed for their roots collide: the txids are
    the same exactly if the two declare the same number of transactions. -/
theorem header_determines_body_iff {hash256 : Hash256} (hjs : js.Hashes hash256)
    {bytes bytes' : List UInt8} {txs txs' : List Transaction}
    (hheader : bytes.take 80 = bytes'.take 80) (h : Accepted js bytes txs)
    (h' : Accepted js bytes' txs')
    (hfree : Merkle.CollisionFree (merkleNode hash256) (txids hash256 txs) (txids hash256 txs')) :
    txids hash256 txs = txids hash256 txs' ↔ declaredCount js bytes = declaredCount js bytes' := by
  have hchecked := h.checked hjs
  have hchecked' := h'.checked hjs
  rw [hchecked.count, hchecked'.count]
  constructor
  · intro hsame
    have hlength := congrArg List.length hsame
    unfold txids at hlength
    rw [List.length_map, List.length_map] at hlength
    rw [hlength]
  · intro hcount
    obtain ⟨root, hroot, hmerkle⟩ := hchecked.root
    obtain ⟨root', hroot', hmerkle'⟩ := hchecked'.root
    have heq : root = root' := by
      apply Vector.toList_inj.mp
      rw [hroot, hroot', root_of_take hheader]
    refine Merkle.eq_of_root_eq (merkleNode hash256) ?_ hfree ?_
    · unfold txids
      rw [List.length_map, List.length_map]
      exact Option.some.inj hcount
    · rw [hmerkle, hmerkle', heq]

/-- How a second body is made: the last of an odd number of transactions once more. -/
theorem merkleRoot_append_getLast {hash256 : Hash256} (hjs : js.Hashes hash256)
    {txs : List Transaction} (hodd : txs.length % 2 = 1) (hmore : 1 < txs.length) (hne : txs ≠ []) :
    js.calculateMerkleRoot (txs ++ [txs.getLast hne]) = js.calculateMerkleRoot txs := by
  have hids : txids hash256 txs ≠ [] := by
    unfold txids
    exact fun hnil => hne (List.map_eq_nil_iff.mp hnil)
  have hlast : (txids hash256 txs).getLast hids = (txs.getLast hne).getHash hash256 :=
    List.getLast_map _
  have htwice : txids hash256 (txs ++ [txs.getLast hne]) =
      txids hash256 txs ++ [(txids hash256 txs).getLast hids] := by
    rw [hlast]
    exact List.map_append
  have hlength : (txids hash256 txs).length = txs.length := List.length_map _
  rw [← hlength] at hodd hmore
  have hroot := Merkle.root_append_getLast (merkleNode hash256) hodd hmore hids
  rw [← htwice, hjs.root _ (by simp), hjs.root _ hne] at hroot
  exact Option.some.inj hroot

namespace Sample

/-- The ids of `coinbaseOf 1` and `coinbaseOf 2`; that of `coinbaseOf 0` is `rootOfOne`. -/
def idOfSecond : Vector UInt8 32 := #v[
  0x8d, 0x91, 0xae, 0x1f, 0x75, 0x0e, 0x1e, 0x33, 0x91, 0xab, 0x85, 0x66, 0xc0, 0x48, 0xfb, 0x36,
  0x9f, 0x64, 0xb4, 0x99, 0xf0, 0x4a, 0x89, 0xd7, 0xf4, 0x0a, 0xde, 0xf1, 0x13, 0xdc, 0x89, 0x68]

def idOfThird : Vector UInt8 32 := #v[
  0x26, 0x1f, 0xc6, 0xa5, 0xba, 0x02, 0x14, 0xab, 0xae, 0xee, 0xec, 0x27, 0x99, 0x67, 0x99, 0xd9,
  0x68, 0xb4, 0xc5, 0x51, 0x8d, 0xa0, 0x64, 0x96, 0xcd, 0x97, 0x3c, 0xfd, 0x86, 0xab, 0x05, 0xb1]

/-- The node over the first two. -/
def leftNode : Vector UInt8 32 := #v[
  0x13, 0x2f, 0xf2, 0x63, 0xa7, 0xa9, 0x8c, 0xc1, 0x25, 0xaf, 0x2c, 0xe7, 0xa1, 0xb1, 0x36, 0x36,
  0x0b, 0x20, 0xd7, 0xff, 0x6e, 0xad, 0xcb, 0x18, 0xe9, 0x6a, 0xda, 0xc4, 0x6f, 0x20, 0xaf, 0x37]

/-- The node over the third and itself. -/
def rightNode : Vector UInt8 32 := #v[
  0x9a, 0x72, 0x93, 0x98, 0xcc, 0x19, 0x05, 0x4b, 0x35, 0xd6, 0x68, 0x26, 0x78, 0x1f, 0x4d, 0x37,
  0xb8, 0x27, 0xec, 0x95, 0x61, 0xe0, 0x21, 0x44, 0x5e, 0xd0, 0x20, 0x6a, 0x7c, 0xfa, 0xad, 0x7f]

def rootOfThree : Vector UInt8 32 := #v[
  0xbf, 0x0b, 0xa6, 0xce, 0x4e, 0x50, 0xeb, 0x61, 0x99, 0xc2, 0x92, 0xb4, 0x95, 0xf5, 0xb7, 0x99,
  0x08, 0x49, 0x9a, 0xd4, 0xb4, 0xa6, 0x8c, 0x04, 0x33, 0x52, 0xec, 0xb2, 0x92, 0xdb, 0x65, 0x49]

/-- The double hash, on what these blocks have hashed. -/
def hash256 : Hash256 := fun bytes =>
  if bytes = (coinbaseOf 0).base then rootOfOne
  else if bytes = (coinbaseOf 1).base then idOfSecond
  else if bytes = (coinbaseOf 2).base then idOfThird
  else if bytes = rootOfOne.toList ++ idOfSecond.toList then leftNode
  else if bytes = idOfThird.toList ++ idOfThird.toList then rightNode
  else if bytes = leftNode.toList ++ rightNode.toList then rootOfThree
  else Vector.replicate 32 0

def hashing : BitcoinJs := BitcoinJs.ofPlain
  (fun txs => (Merkle.root (merkleNode hash256) (txids hash256 txs)).getD (Vector.replicate 32 0))
  (fun _ => none) blockFromPlain plainByteLength

theorem length_readTransactions {n : ℕ} {bs : List UInt8} {txs : List Transaction}
    (h : readTransactions n bs = .ok txs) : txs.length = n := by
  induction n generalizing bs txs with
  | zero =>
    cases h
    rfl
  | succ n ih =>
    unfold readTransactions at h
    rcases bind_eq_ok h with ⟨t, -, h⟩
    rcases bind_eq_ok h with ⟨rest, hrest, h⟩
    cases h
    show rest.length + 1 = n + 1
    rw [ih hrest]

/-- What `blockFromPlain` answers has been read. -/
theorem blockFromPlain_reads {bytes : List UInt8} {block : Block}
    (h : blockFromPlain bytes = .ok block) :
    block.header.merkleRoot.toList = (bytes.drop 36).take 32 ∧
      ∀ txs, block.transactions = some txs → declaredCount hashing bytes = some txs.length := by
  unfold blockFromPlain at h
  by_cases hsafe : bytes.length ≤ MAX_SAFE_INTEGER
  swap
  · rw [dif_neg hsafe] at h
    cases h
  rw [dif_pos hsafe] at h
  by_cases hsmall : bytes.length < 80
  · rw [if_pos hsmall] at h
    cases h
  rw [if_neg hsmall] at h
  cases hheader : readHeader ⟨bytes, hsafe⟩ with
  | error e =>
    rw [hheader] at h
    cases h
  | ok header =>
    rw [hheader] at h
    dsimp only at h
    split_ifs at h with hbare
    · cases h
      exact ⟨readHeader_merkleRoot hheader, nofun⟩
    · rcases bind_eq_ok h with ⟨counted, hcount, h⟩
      rcases bind_eq_ok h with ⟨txs, htxs, h⟩
      cases h
      refine ⟨readHeader_merkleRoot hheader, fun txs' htxs' => ?_⟩
      cases htxs'
      -- as many transactions as were counted are read
      rw [length_readTransactions htxs]
      show (decodeVaruint bytes 80).toOption.map Prod.fst = _
      rw [hcount]
      rfl

theorem hashes : hashing.Hashes hash256 where
  root txs hne := by
    have hids : txids hash256 txs ≠ [] := fun hnil => hne (List.map_eq_nil_iff.mp hnil)
    obtain ⟨top, htop⟩ := Merkle.exists_root (merkleNode hash256) hids
    show _ = some ((Merkle.root (merkleNode hash256) (txids hash256 txs)).getD _)
    rw [htop]
    rfl
  header bytes block h := (blockFromPlain_reads h).1
  count bytes block txs h htxs := (blockFromPlain_reads h).2 txs htxs

def threeTxs : List Transaction := [coinbaseOf 0, coinbaseOf 1, coinbaseOf 2]

/-- The last one is there twice. -/
def fourTxs : List Transaction := [coinbaseOf 0, coinbaseOf 1, coinbaseOf 2, coinbaseOf 2]

/-- A body under the header with the root over the three. -/
def bodyOf (txs : List Transaction) : List UInt8 :=
  (headerOf rootOfThree).bytes ++ (compactSize txs.length ++ txs.flatMap Transaction.plain)

theorem accepted_of_parse {bytes : List UInt8} {txs : List Transaction}
    (hsafe : bytes.length ≤ MAX_SAFE_INTEGER) (hlong : 80 < bytes.length)
    (h : (blockFromBuffer hashing .default ⟨bytes, hsafe⟩).toOption.bind Block.transactions =
      some txs) : Accepted hashing bytes txs := by
  cases hparse : blockFromBuffer hashing .default ⟨bytes, hsafe⟩ with
  | error e =>
    rw [hparse] at h
    cases h
  | ok block =>
    rw [hparse] at h
    have htxs : block.transactions = some txs := h
    have haccepted : Accepted hashing bytes (block.transactions.getD []) :=
      @Accepted.parsed hashing .default ⟨bytes, hsafe⟩ block hlong hparse
    rw [htxs] at haccepted
    exact haccepted

theorem accepted_three : Accepted hashing (bodyOf threeTxs) threeTxs :=
  accepted_of_parse (by decide +kernel) (by decide +kernel) (by decide +kernel)

theorem accepted_four : Accepted hashing (bodyOf fourTxs) fourTxs :=
  accepted_of_parse (by decide +kernel) (by decide +kernel) (by decide +kernel)

theorem whole_hashing {P : List Char} (h : (assertWholeBlock hashing P).toBool = true) :
    assertWholeBlock hashing P = .ok () := by
  cases hwhole : assertWholeBlock hashing P with
  | error e =>
    rw [hwhole] at h
    cases h
  | ok u => rfl

/-- What the two roots hash does not collide. -/
theorem collisionFree :
    Merkle.CollisionFree (merkleNode hash256) (txids hash256 threeTxs) (txids hash256 fourTxs) := by
  unfold Merkle.CollisionFree
  decide +kernel

/-- One header, a body of three transactions and a body of four: every reader takes
    both. -/
theorem threeAndFour :
    hashing.Hashes hash256 ∧ (bodyOf threeTxs).take 80 = (bodyOf fourTxs).take 80 ∧
    Accepted hashing (bodyOf threeTxs) threeTxs ∧ Accepted hashing (bodyOf fourTxs) fourTxs ∧
    assertWholeBlock hashing (hexOf (bodyOf threeTxs)) = .ok () ∧
    assertWholeBlock hashing (hexOf (bodyOf fourTxs)) = .ok () ∧
    Merkle.CollisionFree (merkleNode hash256) (txids hash256 threeTxs) (txids hash256 fourTxs) ∧
    txids hash256 threeTxs ≠ txids hash256 fourTxs :=
  ⟨hashes, by decide +kernel, accepted_three, accepted_four, whole_hashing (by decide +kernel),
    whole_hashing (by decide +kernel), collisionFree, by decide +kernel⟩

/-- The two bodies differ as they declare different numbers of transactions. -/
theorem threeAndFour_declare :
    txids hash256 threeTxs = txids hash256 fourTxs ↔
      declaredCount hashing (bodyOf threeTxs) = declaredCount hashing (bodyOf fourTxs) :=
  header_determines_body_iff hashes (by decide +kernel) accepted_three accepted_four collisionFree

end Sample

end XChainDecoder.Wire
