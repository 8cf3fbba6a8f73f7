import Mathlib.Data.List.Basic
import Mathlib.Tactic.Ring

/-! # Byte strings

    Little-endian numbers and the CompactSize prefix by which counts and lengths
    are written in front of what they count, as lists of bytes, and `At`, which says
    what follows a position of a byte string. -/

namespace Bytes

/-! ## Section 1: Little-endian numbers -/

/-- The lowest `w` bytes of `n`, lowest first. -/
def leBytes : ℕ → ℕ → List UInt8
  | 0,     _ => []
  | w + 1, n => UInt8.ofNat n :: leBytes w (n / 256)

/-- The number whose bytes are `bs`, lowest first. -/
def leNat : List UInt8 → ℕ
  | []      => 0
  | b :: bs => b.toNat + 256 * leNat bs

@[simp] theorem length_leBytes (w n : ℕ) : (leBytes w n).length = w := by
  induction w generalizing n with
  | zero => rfl
  | succ w ih => simp [leBytes, ih]

theorem leNat_leBytes (w : ℕ) {n : ℕ} (h : n < 256 ^ w) : leNat (leBytes w n) = n := by
  induction w generalizing n with
  | zero =>
    simp only [Nat.pow_zero] at h
    simp [leBytes, leNat]
    omega
  | succ w ih =>
    have hdiv : n / 256 < 256 ^ w := by
      rw [Nat.div_lt_iff_lt_mul (by decide)]
      rw [Nat.pow_succ] at h
      exact h
    simp only [leBytes, leNat, ih hdiv, UInt8.toNat_ofNat']
    omega

theorem leBytes_leNat (bs : List UInt8) : leBytes bs.length (leNat bs) = bs := by
  induction bs with
  | nil => rfl
  | cons b bs ih =>
    have hb := b.toNat_lt
    have hdiv : leNat (b :: bs) / 256 = leNat bs := by
      simp only [leNat]
      omega
    have hbyte : UInt8.ofNat (leNat (b :: bs)) = b := by
      apply UInt8.toNat_inj.mp
      simp only [leNat, UInt8.toNat_ofNat']
      omega
    simp only [List.length_cons, leBytes, hdiv, hbyte, ih]

theorem leNat_lt (bs : List UInt8) : leNat bs < 256 ^ bs.length := by
  induction bs with
  | nil => simp [leNat]
  | cons b bs ih =>
    have hb := b.toNat_lt
    simp only [leNat, List.length_cons, Nat.pow_succ]
    omega

/-! ## Section 2: CompactSize -/

/-- A count or length: one byte below 253, else a marker byte and 2, 4 or 8 bytes. -/
def compactSize (n : ℕ) : List UInt8 :=
  if n < 0xFD then [UInt8.ofNat n]
  else if n < 2 ^ 16 then 0xFD :: leBytes 2 n
  else if n < 2 ^ 32 then 0xFE :: leBytes 4 n
  else 0xFF :: leBytes 8 n

/-- A byte string behind its length. -/
def varBytes (bs : List UInt8) : List UInt8 :=
  compactSize bs.length ++ bs

/-- A list behind its count. -/
def counted {α : Type} (encode : α → List UInt8) (l : List α) : List UInt8 :=
  compactSize l.length ++ l.flatMap encode

theorem length_compactSize_pos (n : ℕ) : 0 < (compactSize n).length := by
  unfold compactSize
  split_ifs <;> simp

/-- Only a zero count begins with a zero byte. -/
theorem compactSize_head {n : ℕ} (h : n ≠ 0) :
    ∃ b rest, compactSize n = b :: rest ∧ b ≠ 0 := by
  unfold compactSize
  split_ifs with h₁ h₂ h₃
  · refine ⟨UInt8.ofNat n, [], rfl, ?_⟩
    intro hzero
    have hnat := congrArg UInt8.toNat hzero
    simp only [UInt8.toNat_ofNat', UInt8.toNat_zero] at hnat
    omega
  · exact ⟨0xFD, leBytes 2 n, rfl, by decide⟩
  · exact ⟨0xFE, leBytes 4 n, rfl, by decide⟩
  · exact ⟨0xFF, leBytes 8 n, rfl, by decide⟩

theorem length_le_of_mem_flatMap {α : Type} (encode : α → List UInt8) {l : List α} {a : α}
    (h : a ∈ l) : (encode a).length ≤ (l.flatMap encode).length := by
  induction l with
  | nil => simp at h
  | cons b l ih =>
    simp only [List.flatMap_cons, List.length_append]
    rcases List.mem_cons.mp h with rfl | h
    · omega
    · have := ih h
      omega

/-- Elements of at least `k` bytes each take at least `k` bytes each together. -/
theorem mul_length_le_flatMap {α : Type} {encode : α → List UInt8} {k : ℕ} {l : List α}
    (h : ∀ a ∈ l, k ≤ (encode a).length) : k * l.length ≤ (l.flatMap encode).length := by
  induction l with
  | nil => simp
  | cons a l ih =>
    have hhead := h a (List.mem_cons_self ..)
    have htail := ih (fun b hb => h b (List.mem_cons_of_mem _ hb))
    simp only [List.flatMap_cons, List.length_append, List.length_cons]
    rw [Nat.mul_succ]
    omega

/-- What follows a position of a byte string. -/
def At (bs : List UInt8) (offset : ℕ) (rest : List UInt8) : Prop :=
  offset ≤ bs.length ∧ bs.drop offset = rest

theorem At.length {bs : List UInt8} {offset : ℕ} {rest : List UInt8} (h : At bs offset rest) :
    bs.length = offset + rest.length := by
  rcases h with ⟨hle, hdrop⟩
  rw [← hdrop, List.length_drop]
  omega

theorem At.advance {bs : List UInt8} {offset : ℕ} {enc rest : List UInt8}
    (h : At bs offset (enc ++ rest)) : At bs (offset + enc.length) rest := by
  have hlen := h.length
  rw [List.length_append] at hlen
  refine ⟨by omega, ?_⟩
  rw [← List.drop_drop, h.2, List.drop_left]

theorem At.take {bs : List UInt8} {offset : ℕ} {enc rest : List UInt8}
    (h : At bs offset (enc ++ rest)) : (bs.drop offset).take enc.length = enc := by
  rw [h.2, List.take_left]

/-- A byte string cut off behind a position reaches over what stood there, or ends
    inside it. -/
theorem At.cut {bs bs' : List UInt8} {offset : ℕ} {enc rest : List UInt8}
    (h : At bs' offset (enc ++ rest)) (hcut : bs <+: bs') (hin : offset ≤ bs.length) :
    (∃ rest', At bs offset (enc ++ rest') ∧ rest' <+: rest) ∨
      ∃ more, more ≠ [] ∧ bs.drop offset ++ more = enc := by
  have hdrop : bs.drop offset <+: enc ++ rest := by
    rcases hcut with ⟨more, rfl⟩
    rw [← h.2, List.drop_append_of_le_length hin]
    exact List.prefix_append _ _
  rcases List.prefix_or_prefix_of_prefix hdrop (List.prefix_append enc rest) with hshort | hlong
  · rcases hshort with ⟨more, hmore⟩
    by_cases hnil : more = []
    · left
      subst hnil
      rw [List.append_nil] at hmore
      exact ⟨[], ⟨hin, by rw [hmore, List.append_nil]⟩, List.nil_prefix⟩
    · right
      exact ⟨more, hnil, hmore⟩
  · left
    rcases hlong with ⟨rest', hrest'⟩
    refine ⟨rest', ⟨hin, hrest'.symm⟩, ?_⟩
    rw [← hrest'] at hdrop
    exact (List.prefix_append_right_inj enc).mp hdrop

theorem at_zero (bs : List UInt8) : At bs 0 bs := ⟨Nat.zero_le _, rfl⟩

theorem At.append {bs : List UInt8} {offset : ℕ} {rest : List UInt8} (h : At bs offset rest)
    (more : List UInt8) : At (bs ++ more) offset (rest ++ more) := by
  refine ⟨?_, ?_⟩
  · rw [List.length_append]
    exact Nat.le_add_right_of_le h.1
  · rw [List.drop_append_of_le_length h.1, h.2]

end Bytes
