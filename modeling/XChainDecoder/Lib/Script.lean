import XChainDecoder.Lib.Bytes

/-! # Scripts

    A script is a byte string of opcodes and pushes. A push gives the length of its
    data in one of four forms; read back, it is its data, except that data with an
    opcode of its own (nothing, one byte from 1 to 16, the byte 0x81) reads as that
    opcode.

    `Token` is a piece of a script as it was written, `Element` as it is read.
    `decompile` reads, `compile` writes elements with the shortest push of each. -/

namespace Script

open Bytes

/-! ## Section 1: Elements and tokens -/

inductive Element where
  | opcode (code : UInt8)
  | data (bytes : List UInt8)
deriving DecidableEq, Repr

/-- The data of an element that is not an opcode. -/
def Element.data? : Element → Option (List UInt8)
  | .opcode _   => none
  | .data bytes => some bytes

/-- How a push gives its length: in the opcode itself, or in 1, 2 or 4 bytes behind it. -/
inductive Push where
  | direct
  | pushData1
  | pushData2
  | pushData4
deriving DecidableEq, Repr

namespace Push

/-- The bytes of a length behind the opcode. -/
def width : Push → ℕ
  | .direct    => 0
  | .pushData1 => 1
  | .pushData2 => 2
  | .pushData4 => 4

/-- The form an opcode announces. -/
def ofByte (b : UInt8) : Option Push :=
  if b = 0 then none
  else if b.toNat ≤ 75 then some .direct
  else if b = 76 then some .pushData1
  else if b = 77 then some .pushData2
  else if b = 78 then some .pushData4
  else none

/-- The lengths a form can give. -/
def Fits : Push → ℕ → Prop
  | .direct,    n => 1 ≤ n ∧ n ≤ 75
  | .pushData1, n => n < 256
  | .pushData2, n => n < 256 ^ 2
  | .pushData4, n => n < 256 ^ 4

instance : (form : Push) → (n : ℕ) → Decidable (form.Fits n)
  | .direct,    _ => inferInstanceAs (Decidable (_ ∧ _))
  | .pushData1, _ => inferInstanceAs (Decidable (_ < _))
  | .pushData2, _ => inferInstanceAs (Decidable (_ < _))
  | .pushData4, _ => inferInstanceAs (Decidable (_ < _))

/-- The opcode of a push of `n` bytes. -/
def opcode : Push → ℕ → UInt8
  | .direct,    n => UInt8.ofNat n
  | .pushData1, _ => 76
  | .pushData2, _ => 77
  | .pushData4, _ => 78

/-- What stands in front of `n` bytes of data. -/
def head (form : Push) (n : ℕ) : List UInt8 := form.opcode n :: leBytes form.width n

/-- The length that an opcode and the bytes behind it give. -/
def count (form : Push) (b : UInt8) (lengthBytes : List UInt8) : ℕ :=
  if form = .direct then b.toNat else leNat lengthBytes

/-- The shortest form for `n` bytes. -/
def shortest (n : ℕ) : Push :=
  if n ≤ 75 then .direct
  else if n < 256 then .pushData1
  else if n < 256 ^ 2 then .pushData2
  else .pushData4

theorem ofByte_opcode {form : Push} {n : ℕ} (h : form.Fits n) :
    ofByte (form.opcode n) = some form := by
  cases form with
  | direct =>
    have hn : (UInt8.ofNat n).toNat = n := by
      rw [UInt8.toNat_ofNat']
      have := h.2
      omega
    have hne : UInt8.ofNat n ≠ 0 := by
      intro hzero
      rw [hzero] at hn
      have h1 := h.1
      simp at hn
      omega
    simp only [opcode, ofByte, if_neg hne, hn, if_pos h.2]
  | pushData1 => rfl
  | pushData2 => rfl
  | pushData4 => rfl

theorem count_head {form : Push} {n : ℕ} (h : form.Fits n) :
    form.count (form.opcode n) (leBytes form.width n) = n := by
  cases form with
  | direct =>
    show (UInt8.ofNat n).toNat = n
    rw [UInt8.toNat_ofNat']
    have := h.2
    omega
  | pushData1 => exact leNat_leBytes 1 h
  | pushData2 => exact leNat_leBytes 2 h
  | pushData4 => exact leNat_leBytes 4 h

theorem shortest_fits {n : ℕ} (hpos : 1 ≤ n) (hlt : n < 256 ^ 4) : (shortest n).Fits n := by
  unfold shortest
  split_ifs with h₁ h₂ h₃
  · exact ⟨hpos, h₁⟩
  · exact h₂
  · exact h₃
  · exact hlt

end Push

/-- The opcode that stands for some data. -/
def minimalOpcode : List UInt8 → Option UInt8
  | []  => some 0x00
  | [b] => if 1 ≤ b.toNat ∧ b.toNat ≤ 16 then some (80 + b)
      else if b = 0x81 then some 0x4F
      else none
  | _   => none

/-- Data as it is read. -/
def elementOf (bytes : List UInt8) : Element :=
  match minimalOpcode bytes with
  | some code => .opcode code
  | none      => .data bytes

theorem elementOf_of_minimalOpcode {bytes : List UInt8} (h : minimalOpcode bytes = none) :
    elementOf bytes = .data bytes := by
  simp [elementOf, h]

theorem minimalOpcode_of_length {bytes : List UInt8} (h : 2 ≤ bytes.length) :
    minimalOpcode bytes = none := by
  match bytes with
  | [] | [_] =>
    simp at h
  | _ :: _ :: _ => rfl

/-- A piece of a script as it was written. -/
inductive Token where
  | op (code : UInt8)
  | push (form : Push) (bytes : List UInt8)
deriving DecidableEq, Repr

namespace Token

/-- An opcode that announces no push, or a push whose form can give its length. -/
def Valid : Token → Prop
  | .op code         => Push.ofByte code = none
  | .push form bytes => form.Fits bytes.length

instance : (t : Token) → Decidable t.Valid
  | .op _     => inferInstanceAs (Decidable (_ = _))
  | .push _ _ => inferInstanceAs (Decidable (Push.Fits _ _))

def bytes : Token → List UInt8
  | .op code         => [code]
  | .push form bytes => form.head bytes.length ++ bytes

/-- What a token reads as. -/
def element : Token → Element
  | .op code      => .opcode code
  | .push _ bytes => elementOf bytes

theorem length_bytes_pos (t : Token) : 0 < t.bytes.length := by
  cases t <;> simp [bytes, Push.head]

end Token

/-- The script of some tokens. -/
def write (tokens : List Token) : List UInt8 := tokens.flatMap Token.bytes

/-! ## Section 2: Reading -/

/-- `decompile` with as many rounds as there are bytes. -/
def decompileRounds : ℕ → List UInt8 → Option (List Element)
  | _,      []        => some []
  | 0,      _ :: _    => none
  | n + 1,  b :: rest =>
      match Push.ofByte b with
      | none      => (decompileRounds n rest).map (.opcode b :: ·)
      | some form =>
          let length := form.count b (rest.take form.width)
          let body := rest.drop form.width
          if rest.length < form.width ∨ body.length < length then none
          else (decompileRounds n (body.drop length)).map (elementOf (body.take length) :: ·)

/-- The elements of a script, `none` where a push runs over its end. -/
def decompile (script : List UInt8) : Option (List Element) :=
  decompileRounds script.length script

/-- A push is read in one round. -/
theorem decompileRounds_push {form : Push} {bytes : List UInt8} (h : form.Fits bytes.length)
    (n : ℕ) (rest : List UInt8) :
    decompileRounds (n + 1) (form.head bytes.length ++ bytes ++ rest) =
      (decompileRounds n rest).map (elementOf bytes :: ·) := by
  have hwidth : (leBytes form.width bytes.length).length = form.width := length_leBytes ..
  have htake : (leBytes form.width bytes.length ++ (bytes ++ rest)).take form.width =
      leBytes form.width bytes.length := List.take_left' hwidth
  have hdrop : (leBytes form.width bytes.length ++ (bytes ++ rest)).drop form.width =
      bytes ++ rest := List.drop_left' hwidth
  show decompileRounds (n + 1)
    (form.opcode bytes.length :: (leBytes form.width bytes.length ++ bytes ++ rest)) = _
  rw [List.append_assoc]
  simp only [decompileRounds, Push.ofByte_opcode h, htake, hdrop, Push.count_head h]
  have hfits : ¬ ((leBytes form.width bytes.length ++ (bytes ++ rest)).length < form.width ∨
      (bytes ++ rest).length < bytes.length) := by
    simp only [List.length_append, hwidth]
    omega
  rw [if_neg hfits, List.take_left, List.drop_left]

/-- **Reading.** A script of valid tokens is read token by token. -/
theorem decompileRounds_write {tokens : List Token} (h : ∀ t ∈ tokens, t.Valid) {n : ℕ}
    (hn : tokens.length ≤ n) : decompileRounds n (write tokens) = some (tokens.map Token.element) := by
  induction tokens generalizing n with
  | nil => cases n <;> rfl
  | cons t rest ih =>
    obtain ⟨m, rfl⟩ : ∃ m, n = m + 1 := ⟨n - 1, by rw [List.length_cons] at hn; omega⟩
    have hrest := ih (fun t' ht' => h t' (List.mem_cons_of_mem _ ht')) (n := m)
      (by rw [List.length_cons] at hn; omega)
    have hvalid := h t List.mem_cons_self
    show decompileRounds (m + 1) (t.bytes ++ write rest) = _
    cases t with
    | op code =>
      have hnone : Push.ofByte code = none := hvalid
      show decompileRounds (m + 1) (code :: write rest) = _
      simp only [decompileRounds, hnone, hrest]
      rfl
    | push form bytes =>
      show decompileRounds (m + 1) (form.head bytes.length ++ bytes ++ write rest) = _
      rw [decompileRounds_push hvalid, hrest]
      rfl

theorem length_le_length_write (tokens : List Token) : tokens.length ≤ (write tokens).length := by
  have h : 1 * tokens.length ≤ (tokens.flatMap Token.bytes).length :=
    mul_length_le_flatMap (fun t _ => t.length_bytes_pos)
  rwa [Nat.one_mul] at h

theorem decompile_write {tokens : List Token} (h : ∀ t ∈ tokens, t.Valid) :
    decompile (write tokens) = some (tokens.map Token.element) :=
  decompileRounds_write h (length_le_length_write tokens)

theorem write_append (ts us : List Token) : write (ts ++ us) = write ts ++ write us :=
  List.flatMap_append

/-! ## Section 3: Writing -/

/-- The token an element is written as: the opcode, or the shortest push. -/
def tokenOf : Element → Token
  | .opcode code => .op code
  | .data bytes  =>
      match minimalOpcode bytes with
      | some code => .op code
      | none      => .push (Push.shortest bytes.length) bytes

/-- The script of some elements. -/
def compile (elements : List Element) : List UInt8 := write (elements.map tokenOf)

/-- Data without an opcode of its own is written as a push of it. -/
theorem tokenOf_data {bytes : List UInt8} (h : minimalOpcode bytes = none) :
    tokenOf (.data bytes) = .push (Push.shortest bytes.length) bytes := by
  simp [tokenOf, h]

theorem ofByte_minimalOpcode {bytes : List UInt8} {code : UInt8}
    (h : minimalOpcode bytes = some code) : Push.ofByte code = none := by
  match bytes with
  | [] =>
    simp only [minimalOpcode, Option.some.injEq] at h
    rw [← h]
    rfl
  | [b] =>
    simp only [minimalOpcode] at h
    split_ifs at h with hsmall hneg
    · rw [Option.some.injEq] at h
      have hcode : code.toNat = 80 + b.toNat := by
        rw [← h, UInt8.toNat_add]
        have := hsmall.2
        show (80 + b.toNat) % 256 = _
        omega
      have hne : ∀ m : UInt8, m.toNat ≤ 80 → code ≠ m := by
        intro m hm heq
        rw [heq] at hcode
        have := hsmall.1
        omega
      have hlarge : ¬ code.toNat ≤ 75 := by omega
      simp only [Push.ofByte, hlarge, if_false, hne 0 (by decide), hne 76 (by decide),
        hne 77 (by decide), hne 78 (by decide)]
    · rw [Option.some.injEq] at h
      rw [← h]
      rfl
  | _ :: _ :: _ => cases h

/-- Data shorter than 4 GiB is written as a valid token. -/
theorem tokenOf_valid {bytes : List UInt8} (h : bytes.length < 256 ^ 4) :
    (tokenOf (.data bytes)).Valid := by
  cases hmin : minimalOpcode bytes with
  | some code =>
    simp only [tokenOf, hmin]
    exact ofByte_minimalOpcode hmin
  | none =>
    rw [tokenOf_data hmin]
    refine Push.shortest_fits ?_ h
    cases bytes with
    | nil => cases hmin
    | cons b rest => simp

theorem element_tokenOf (bytes : List UInt8) :
    (tokenOf (.data bytes)).element = elementOf bytes := by
  cases hmin : minimalOpcode bytes with
  | some code => simp [tokenOf, hmin, Token.element, elementOf]
  | none => simp [tokenOf, hmin, Token.element]

end Script
