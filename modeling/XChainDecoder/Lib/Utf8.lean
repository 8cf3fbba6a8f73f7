import Mathlib.Data.List.Basic
import Mathlib.Tactic.Ring

/-! # UTF-8 as text decoders read it

    A decoder goes byte by byte. Between characters it starts one; within a character
    it takes the bytes that may follow, and any other byte is an error that ends the
    character and starts the next. A byte order mark at the front is dropped.

    **Main theorems.** `decode_append_ascii`: what stands in front of an ASCII byte and
    what stands behind it are decoded apart. `mem_of_mem_decode`: an ASCII character
    comes from its own byte only. `decode_encode`: what was encoded is decoded as it was. -/

namespace Utf8

/-! ## Section 1: The decoder -/

/-- How many bytes the character needs still, what it is so far, and the range its next
    byte is in. -/
structure State where
  needed    : ℕ
  codePoint : ℕ
  lower     : ℕ
  upper     : ℕ
deriving DecidableEq, Repr

/-- Between characters. -/
def State.start : State := ⟨0, 0, 0x80, 0xBF⟩

/-- What the first byte of a character puts out, and what follows it; none is an error. -/
def lead (b : ℕ) : List (Option Char) × State :=
  if b < 0x80 then ([some (Char.ofNat b)], .start)
  else if 0xC2 ≤ b ∧ b ≤ 0xDF then ([], ⟨1, b - 0xC0, 0x80, 0xBF⟩)
  else if 0xE0 ≤ b ∧ b ≤ 0xEF then
    ([], ⟨2, b - 0xE0, if b = 0xE0 then 0xA0 else 0x80, if b = 0xED then 0x9F else 0xBF⟩)
  else if 0xF0 ≤ b ∧ b ≤ 0xF4 then
    ([], ⟨3, b - 0xF0, if b = 0xF0 then 0x90 else 0x80, if b = 0xF4 then 0x8F else 0xBF⟩)
  else ([none], .start)

/-- A byte out of range is an error and the first of the next character. -/
def step (s : State) (b : ℕ) : List (Option Char) × State :=
  if s.needed = 0 then lead b
  else if s.lower ≤ b ∧ b ≤ s.upper then
    if s.needed = 1 then ([some (Char.ofNat (s.codePoint * 64 + (b - 0x80)))], .start)
    else ([], ⟨s.needed - 1, s.codePoint * 64 + (b - 0x80), 0x80, 0xBF⟩)
  else (none :: (lead b).1, (lead b).2)

/-- Decode from a state on; bytes that end within a character are an error. -/
def run : State → List UInt8 → List (Option Char)
  | s, []         => if s.needed = 0 then [] else [none]
  | s, b :: bytes => (step s b.toNat).1 ++ run (step s b.toNat).2 bytes

def withoutBom (bytes : List UInt8) : List UInt8 :=
  if bytes.take 3 = [0xEF, 0xBB, 0xBF] then bytes.drop 3 else bytes

/-- The characters of a text, with its errors. -/
def decode (bytes : List UInt8) : List (Option Char) := run .start (withoutBom bytes)

/-- Every error is replaced. -/
def lenient (bytes : List UInt8) : List Char := (decode bytes).map (fun c => c.getD '\uFFFD')

/-- None where there is an error. -/
def strict (bytes : List UInt8) : Option (List Char) :=
  if none ∈ decode bytes then none else some (lenient bytes)

def encode (text : List Char) : List UInt8 := text.flatMap String.utf8EncodeChar

@[simp] theorem encode_nil : encode [] = [] := rfl

@[simp] theorem encode_cons (c : Char) (text : List Char) :
    encode (c :: text) = String.utf8EncodeChar c ++ encode text := rfl

theorem encode_append (text text' : List Char) : encode (text ++ text') = encode text ++ encode text' :=
  List.flatMap_append

theorem getD_strict (bytes : List UInt8) : (strict bytes).getD (lenient bytes) = lenient bytes := by
  unfold strict
  split <;> rfl

/-! ## Section 2: ASCII -/

/-- Of a character under way: no byte below `0x80` belongs to it, and it comes to no
    ASCII character. -/
def Valid (s : State) : Prop :=
  s.needed = 0 ∨ 0x80 ≤ s.lower ∧
    0x80 ≤ (s.codePoint * 64 + (s.lower - 0x80)) * 64 ^ (s.needed - 1)

theorem valid_start : Valid .start := .inl rfl

theorem valid_lead (b : ℕ) : Valid (lead b).2 := by
  unfold lead Valid
  split_ifs <;> simp [State.start] <;> omega

theorem valid_step {s : State} (h : Valid s) (b : ℕ) : Valid (step s b).2 := by
  unfold step
  split_ifs with hstart hrange hlast
  · exact valid_lead b
  · exact valid_start
  · rcases h with h | ⟨hlower, hmin⟩
    · exact absurd h hstart
    refine .inr ⟨Nat.le_refl _, ?_⟩
    -- each byte taken is worth one factor 64
    have hpow : 64 ^ (s.needed - 1) = 64 * 64 ^ (s.needed - 1 - 1) := by
      rw [← Nat.pow_succ']
      congr 1
      omega
    have hle : s.codePoint * 64 + (s.lower - 0x80) ≤ s.codePoint * 64 + (b - 0x80) := by omega
    calc 0x80 ≤ (s.codePoint * 64 + (s.lower - 0x80)) * 64 ^ (s.needed - 1) := hmin
      _ ≤ (s.codePoint * 64 + (b - 0x80)) * 64 ^ (s.needed - 1) := Nat.mul_le_mul_right _ hle
      _ = ((s.codePoint * 64 + (b - 0x80)) * 64 + (0x80 - 0x80)) * 64 ^ (s.needed - 1 - 1) := by
        rw [hpow]
        ring
  · exact valid_lead b

theorem lead_ascii {b : ℕ} (hb : b < 0x80) : lead b = ([some (Char.ofNat b)], .start) := if_pos hb

/-- An ASCII byte is a character of its own, wherever it stands. -/
theorem run_append_ascii {s : State} (h : Valid s) {c : UInt8} (hc : c.toNat < 0x80)
    (front back : List UInt8) :
    run s (front ++ c :: back) = run s front ++ some (Char.ofNat c.toNat) :: run .start back := by
  induction front generalizing s with
  | nil =>
    show (step s c.toNat).1 ++ run (step s c.toNat).2 back = _
    unfold step run
    by_cases hstart : s.needed = 0
    · rw [if_pos hstart, if_pos hstart, lead_ascii hc]
      rfl
    · have hlower : 0x80 ≤ s.lower := (h.resolve_left hstart).1
      rw [if_neg hstart, if_neg hstart, if_neg (fun hrange => by omega), lead_ascii hc]
      rfl
  | cons b front ih =>
    show (step s b.toNat).1 ++ run (step s b.toNat).2 (front ++ c :: back) = _
    rw [ih (valid_step h b.toNat), ← List.append_assoc]
    rfl

theorem withoutBom_append_ascii {c : UInt8} (hc : c.toNat < 0x80) (front back : List UInt8) :
    withoutBom (front ++ c :: back) = withoutBom front ++ c :: back := by
  unfold withoutBom
  by_cases hlong : 3 ≤ front.length
  · rw [List.take_append_of_le_length hlong, List.drop_append_of_le_length hlong]
    split <;> rfl
  · -- the byte would be one of the mark
    have hmem : c ∈ (front ++ c :: back).take 3 := by
      obtain ⟨n, hn⟩ : ∃ n, 3 - front.length = n + 1 := ⟨2 - front.length, by omega⟩
      rw [List.take_append, hn, List.take_succ_cons]
      exact List.mem_append_right _ List.mem_cons_self
    have hshort : front.take 3 ≠ [0xEF, 0xBB, 0xBF] := by
      intro heq
      have hlen := congrArg List.length heq
      rw [List.length_take] at hlen
      simp at hlen
      omega
    rw [if_neg hshort, if_neg]
    intro heq
    rw [heq] at hmem
    simp only [List.mem_cons, List.not_mem_nil, or_false] at hmem
    rcases hmem with rfl | rfl | rfl <;> exact absurd hc (by decide)

/-- What stands in front of an ASCII byte and what stands behind it are decoded apart. -/
theorem decode_append_ascii {c : UInt8} (hc : c.toNat < 0x80) (front back : List UInt8) :
    decode (front ++ c :: back) =
      decode front ++ some (Char.ofNat c.toNat) :: run .start back := by
  unfold decode
  rw [withoutBom_append_ascii hc, run_append_ascii valid_start hc]

theorem toNat_ofNat (n : ℕ) : (Char.ofNat n).toNat = if n.isValidChar then n else 0 := by
  unfold Char.ofNat
  by_cases h : n.isValidChar
  · rw [dif_pos h, if_pos h]
    rfl
  · rw [dif_neg h, if_neg h]
    rfl

/-- A code point beyond ASCII is no ASCII character, unless it is none at all. -/
theorem ne_ofNat_of_le {n : ℕ} (h : 0x80 ≤ n) {c : Char} (hc : c.toNat < 0x80) (hpos : 0 < c.toNat) :
    Char.ofNat n ≠ c := by
  intro heq
  rw [← heq, toNat_ofNat] at hc hpos
  split_ifs at hc hpos
  · omega
  · omega

theorem mem_of_mem_lead {b : ℕ} {c : Char} (h : some c ∈ (lead b).1) : c = Char.ofNat b := by
  unfold lead at h
  split_ifs at h <;> simp at h
  exact h

theorem mem_of_mem_step {s : State} (hs : Valid s) {b : ℕ} {c : Char} (hc : c.toNat < 0x80)
    (hpos : 0 < c.toNat) (h : some c ∈ (step s b).1) : c = Char.ofNat b := by
  unfold step at h
  split_ifs at h with hstart hrange hlast
  · exact mem_of_mem_lead h
  · rw [List.mem_singleton, Option.some.injEq] at h
    obtain ⟨hlower, hmin⟩ := hs.resolve_left hstart
    rw [hlast] at hmin
    exact absurd h.symm (ne_ofNat_of_le (by omega) hc hpos)
  · cases h
  · rcases List.mem_cons.mp h with h | h
    · cases h
    · exact mem_of_mem_lead h

theorem mem_of_mem_run {s : State} (hs : Valid s) {bytes : List UInt8} {c : Char}
    (hc : c.toNat < 0x80) (hpos : 0 < c.toNat) (h : some c ∈ run s bytes) :
    ∃ b ∈ bytes, c = Char.ofNat b.toNat := by
  induction bytes generalizing s with
  | nil =>
    unfold run at h
    split_ifs at h <;> simp at h
  | cons b bytes ih =>
    rcases List.mem_append.mp h with hhead | htail
    · exact ⟨b, List.mem_cons_self, mem_of_mem_step hs hc hpos hhead⟩
    · obtain ⟨b', hmem, heq⟩ := ih (valid_step hs b.toNat) htail
      exact ⟨b', List.mem_cons_of_mem _ hmem, heq⟩

theorem mem_of_mem_withoutBom {bytes : List UInt8} {b : UInt8} (h : b ∈ withoutBom bytes) :
    b ∈ bytes := by
  unfold withoutBom at h
  split at h
  · exact List.mem_of_mem_drop h
  · exact h

/-- An ASCII character comes from its own byte only. -/
theorem mem_of_mem_decode {bytes : List UInt8} {c : Char} (hc : c.toNat < 0x80) (hpos : 0 < c.toNat)
    (h : some c ∈ decode bytes) : UInt8.ofNat c.toNat ∈ bytes := by
  obtain ⟨b, hmem, heq⟩ := mem_of_mem_run valid_start hc hpos h
  have hb : b.toNat.isValidChar := .inl (lt_trans b.toNat_lt (by decide))
  have hnat : c.toNat = b.toNat := by
    rw [heq, toNat_ofNat, if_pos hb]
  rw [hnat, UInt8.ofNat_toNat]
  exact mem_of_mem_withoutBom hmem

/-! ## Section 3: The round trip -/

theorem run_lead {b : UInt8} {s : State} (h : lead b.toNat = ([], s)) (bytes : List UInt8) :
    run .start (b :: bytes) = run s bytes := by
  show (lead b.toNat).1 ++ run (lead b.toNat).2 bytes = run s bytes
  rw [h]
  rfl

theorem run_more {needed codePoint lower upper : ℕ} {b : UInt8} (hlower : lower ≤ b.toNat)
    (hupper : b.toNat ≤ upper) (bytes : List UInt8) :
    run ⟨needed + 2, codePoint, lower, upper⟩ (b :: bytes) =
      run ⟨needed + 1, codePoint * 64 + (b.toNat - 0x80), 0x80, 0xBF⟩ bytes := by
  simp [run, step, hlower, hupper]

theorem run_last {codePoint lower upper : ℕ} {b : UInt8} (hlower : lower ≤ b.toNat)
    (hupper : b.toNat ≤ upper) (bytes : List UInt8) :
    run ⟨1, codePoint, lower, upper⟩ (b :: bytes) =
      some (Char.ofNat (codePoint * 64 + (b.toNat - 0x80))) :: run .start bytes := by
  simp [run, step, hlower, hupper]

theorem lead_two {b : ℕ} (h : 0xC2 ≤ b ∧ b ≤ 0xDF) : lead b = ([], ⟨1, b - 0xC0, 0x80, 0xBF⟩) := by
  unfold lead
  rw [if_neg (by omega), if_pos h]

theorem lead_three {b : ℕ} (h : 0xE0 ≤ b ∧ b ≤ 0xEF) : lead b =
    ([], ⟨2, b - 0xE0, if b = 0xE0 then 0xA0 else 0x80, if b = 0xED then 0x9F else 0xBF⟩) := by
  unfold lead
  rw [if_neg (by omega), if_neg (by omega), if_pos h]

theorem lead_four {b : ℕ} (h : 0xF0 ≤ b ∧ b ≤ 0xF4) : lead b =
    ([], ⟨3, b - 0xF0, if b = 0xF0 then 0x90 else 0x80, if b = 0xF4 then 0x8F else 0xBF⟩) := by
  unfold lead
  rw [if_neg (by omega), if_neg (by omega), if_neg (by omega), if_pos h]

theorem toNat_byte {n : ℕ} (h : n < 256) : (UInt8.ofNat n).toNat = n := UInt8.toNat_ofNat_of_lt' h

/-- Between characters, a whole character is decoded as it was encoded. -/
theorem run_encodeChar (c : Char) (bytes : List UInt8) :
    run .start (String.utf8EncodeChar c ++ bytes) = some c :: run .start bytes := by
  have hvalid : c.toNat.isValidChar := c.valid
  have hof : Char.ofNat c.toNat = c := Char.ofNat_toNat c
  have hmax : c.toNat < 0x110000 := by
    rcases hvalid with h | h <;> omega
  have hgap : c.toNat < 0xD800 ∨ 0xDFFF < c.toNat := by
    rcases hvalid with h | h
    · exact .inl h
    · exact .inr h.1
  unfold String.utf8EncodeChar
  rw [Char.toNat_val]
  dsimp only
  generalize c.toNat = n at hvalid hof hmax hgap ⊢
  -- one to four bytes, by the size of the code point
  split_ifs with h₁ h₂ h₃
  · have hbyte := toNat_byte (n := n) (by omega)
    show (lead (UInt8.ofNat n).toNat).1 ++ run (lead (UInt8.ofNat n).toNat).2 bytes = _
    rw [hbyte, lead_ascii (by omega), hof]
    rfl
  · have hfirst := toNat_byte (n := n / 64 % 0x20 + 0xc0) (by omega)
    have hlast := toNat_byte (n := n % 0x40 + 0x80) (by omega)
    rw [List.cons_append, run_lead (lead_two (by omega)), List.cons_append, run_last (by omega) (by omega),
      hfirst, hlast]
    rw [show (n / 64 % 0x20 + 0xc0 - 0xC0) * 64 + (n % 0x40 + 0x80 - 0x80) = n by omega, hof]
    rfl
  · have hfirst := toNat_byte (n := n / 4096 % 0x10 + 0xe0) (by omega)
    have hsecond := toNat_byte (n := n / 64 % 0x40 + 0x80) (by omega)
    have hlast := toNat_byte (n := n % 0x40 + 0x80) (by omega)
    rw [List.cons_append, run_lead (lead_three (by omega)), List.cons_append, run_more, List.cons_append,
      run_last (by omega) (by omega), hfirst, hsecond, hlast]
    · rw [show ((n / 4096 % 0x10 + 0xe0 - 0xE0) * 64 + (n / 64 % 0x40 + 0x80 - 0x80)) * 64 +
        (n % 0x40 + 0x80 - 0x80) = n by omega, hof]
      rfl
    · rw [hfirst, hsecond]
      split_ifs <;> omega
    · rw [hfirst, hsecond]
      split_ifs <;> omega
  · have hfirst := toNat_byte (n := n / 262144 % 0x08 + 0xf0) (by omega)
    have hsecond := toNat_byte (n := n / 4096 % 0x40 + 0x80) (by omega)
    have hthird := toNat_byte (n := n / 64 % 0x40 + 0x80) (by omega)
    have hlast := toNat_byte (n := n % 0x40 + 0x80) (by omega)
    rw [List.cons_append, run_lead (lead_four (by omega)), List.cons_append, run_more, List.cons_append,
      run_more (by omega) (by omega), List.cons_append, run_last (by omega) (by omega), hfirst, hsecond,
      hthird, hlast]
    · rw [show (((n / 262144 % 0x08 + 0xf0 - 0xF0) * 64 + (n / 4096 % 0x40 + 0x80 - 0x80)) * 64 +
        (n / 64 % 0x40 + 0x80 - 0x80)) * 64 + (n % 0x40 + 0x80 - 0x80) = n by omega, hof]
      rfl
    · rw [hfirst, hsecond]
      split_ifs <;> omega
    · rw [hfirst, hsecond]
      split_ifs <;> omega

/-- What was encoded is decoded as it was, but for a byte order mark. -/
theorem run_encode (text : List Char) : run .start (encode text) = text.map some := by
  induction text with
  | nil => rfl
  | cons c text ih =>
    rw [encode_cons, run_encodeChar, ih]
    rfl

theorem decode_encode {text : List Char} (h : text.head? ≠ some '\uFEFF') :
    decode (encode text) = text.map some := by
  unfold decode withoutBom
  split
  · next heq =>
    -- these three bytes are the mark
    have hmark : run .start (encode text) = some '\uFEFF' :: run .start ((encode text).drop 3) := by
      conv =>
        lhs
        rw [← List.take_append_drop 3 (encode text), heq]
      exact run_encodeChar '\uFEFF' _
    rw [run_encode] at hmark
    cases text with
    | nil => cases hmark
    | cons c text =>
      rw [List.map_cons, List.cons.injEq, Option.some.injEq] at hmark
      exact absurd (congrArg some hmark.1) h
  · exact run_encode text

theorem lenient_encode {text : List Char} (h : text.head? ≠ some '\uFEFF') :
    lenient (encode text) = text := by
  unfold lenient
  rw [decode_encode h, List.map_map]
  exact List.map_id text

end Utf8
