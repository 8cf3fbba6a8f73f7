import Mathlib.Data.List.Basic

/-! # Block and transaction hashes

    Every hash the decoder stores or compares is a string of 64 lowercase hex
    digits. `getBlockHash` of the connector checks that shape on the node's
    answer and lowercases it; previous-block and transaction hashes are rendered
    from bytes and have it by construction. A value of `Hash` therefore cannot
    be malformed, and comparing two hashes is comparing two strings. -/

namespace XChainDecoder

def isLowerHexDigit (c : Char) : Bool :=
  ('0' ≤ c && c ≤ '9') || ('a' ≤ c && c ≤ 'f')

/-- One character of the class `[0-9a-fA-F]`. -/
def isHexDigit (c : Char) : Bool :=
  isLowerHexDigit c || ('A' ≤ c && c ≤ 'F')

def IsHash (s : String) : Prop := s.length = 64 ∧ s.toList.all isLowerHexDigit = true

instance (s : String) : Decidable (IsHash s) := inferInstanceAs (Decidable (_ ∧ _))

/-- 64 lowercase hex digits. -/
abbrev Hash : Type := {s : String // IsHash s}

/-- The lowercase form of a hex digit; `toLowerCase` on the strings it is used for. -/
def lowerHexDigit (c : Char) : Char :=
  if 'A' ≤ c ∧ c ≤ 'F' then Char.ofNat (c.toNat + 32) else c

theorem isLowerHexDigit_lowerHexDigit {c : Char} (h : isHexDigit c = true) :
    isLowerHexDigit (lowerHexDigit c) = true := by
  unfold lowerHexDigit
  by_cases hup : 'A' ≤ c ∧ c ≤ 'F'
  · rw [if_pos hup]
    have hlo : 65 ≤ c.toNat := hup.1
    have hhi : c.toNat ≤ 70 := hup.2
    have hsix : c.toNat = 65 ∨ c.toNat = 66 ∨ c.toNat = 67 ∨ c.toNat = 68 ∨
        c.toNat = 69 ∨ c.toNat = 70 := by omega
    rcases hsix with h | h | h | h | h | h <;> rw [h] <;> decide
  · rw [if_neg hup]
    have hnot : ('A' ≤ c && c ≤ 'F') = false := by
      simpa using hup
    simpa [isHexDigit, hnot] using h

/-- `BLOCK_HASH_HEX`: the shape `getBlockHash` requires of the node's answer. -/
def isBlockHashHex (s : String) : Bool :=
  s.length = 64 && s.toList.all isHexDigit

/-- Lowercase a well-shaped answer. -/
def Hash.ofHex (s : String) (h : isBlockHashHex s = true) : Hash :=
  ⟨String.ofList (s.toList.map lowerHexDigit), by
    have hs : s.length = 64 ∧ s.toList.all isHexDigit = true := by
      simpa [isBlockHashHex] using h
    refine ⟨by rw [String.length_ofList, List.length_map, String.length_toList, hs.1], ?_⟩
    rw [String.toList_ofList, List.all_map, List.all_eq_true]
    intro c hc
    exact isLowerHexDigit_lowerHexDigit (List.all_eq_true.mp hs.2 c hc)⟩

/-- `getBlockHash` on the node's raw answer: the lowercased hash, or `none`
    where the connector throws (no answer, or a malformed one). -/
def Hash.ofAnswer : Option String → Option Hash
  | none   => none
  | some s => if h : isBlockHashHex s = true then some (Hash.ofHex s h) else none

end XChainDecoder
