import XChainDecoder.Lib.Bytes

/-! # Codecs

    A writer with a reader that inverts it. A `Codec` carries its two laws.
    `reads`: the reader answers what was written and leaves the bytes after it.
    `persists`: more bytes after the ones it read change nothing. Together they say
    that a proper prefix of what was written is never read (`decode_short`).

    The laws speak of what is written in at most `limit` bytes, so that a count
    prefix of eight bytes is always wide enough. -/

structure Codec (limit : ℕ) (α : Type) where
  encode : α → List UInt8
  decode : List UInt8 → Option (α × List UInt8)
  reads : ∀ a rest, (encode a).length ≤ limit → decode (encode a ++ rest) = some (a, rest)
  persists : ∀ bs a rest more, decode bs = some (a, rest) →
    decode (bs ++ more) = some (a, rest ++ more)

namespace Codec

open Bytes

variable {limit : ℕ} {α β : Type}

/-- A proper prefix of what was written is not read. -/
theorem decode_short (c : Codec limit α) {a : α} {bs more : List UInt8} (h : bs ++ more = c.encode a)
    (hmore : more ≠ []) (hfits : (c.encode a).length ≤ limit) : c.decode bs = none := by
  cases hdecode : c.decode bs with
  | none => rfl
  | some p =>
    have hlonger := c.persists bs p.1 p.2 more hdecode
    have hwhole := c.reads a [] hfits
    rw [List.append_nil, ← h, hlonger] at hwhole
    simp only [Option.some.injEq, Prod.mk.injEq, List.append_eq_nil_iff] at hwhole
    exact absurd hwhole.2.2 hmore

/-! ## Section 1: Fixed widths -/

/-- The first `w` bytes, and what follows them. -/
def split (w : ℕ) (bs : List UInt8) : Option (List UInt8 × List UInt8) :=
  if w ≤ bs.length then some (bs.take w, bs.drop w) else none

theorem split_append {w : ℕ} {enc : List UInt8} (h : enc.length = w) (rest : List UInt8) :
    split w (enc ++ rest) = some (enc, rest) := by
  subst h
  simp [split]

theorem split_persists {w : ℕ} {bs enc rest : List UInt8} (h : split w bs = some (enc, rest))
    (more : List UInt8) : split w (bs ++ more) = some (enc, rest ++ more) := by
  unfold split at h
  by_cases hw : w ≤ bs.length
  · rw [if_pos hw] at h
    simp only [Option.some.injEq, Prod.mk.injEq] at h
    rcases h with ⟨rfl, rfl⟩
    simp only [split, List.length_append]
    rw [if_pos (by omega), List.take_append_of_le_length hw, List.drop_append_of_le_length hw]
  · rw [if_neg hw] at h
    simp at h

/-- Numbers of `w` bytes, seen as values of `α`. -/
def number (w : ℕ) (ofNat : ℕ → α) (toNat : α → ℕ) (hlt : ∀ a, toNat a < 256 ^ w)
    (hinv : ∀ a, ofNat (toNat a) = a) : Codec limit α where
  encode a := leBytes w (toNat a)
  decode bs := (split w bs).map (fun p => (ofNat (leNat p.1), p.2))
  reads a rest _ := by
    rw [split_append (length_leBytes ..), Option.map_some, leNat_leBytes w (hlt a), hinv]
  persists bs a rest more h := by
    rw [Option.map_eq_some_iff] at h ⊢
    rcases h with ⟨⟨enc, rest'⟩, hsplit, heq⟩
    refine ⟨(enc, rest' ++ more), split_persists hsplit more, ?_⟩
    simp only [Prod.mk.injEq] at heq ⊢
    exact ⟨heq.1, by rw [heq.2]⟩

def uint32 : Codec limit UInt32 :=
  number 4 UInt32.ofNat UInt32.toNat (fun a => a.toNat_lt) (fun _ => UInt32.ofNat_toNat)

def uint64 : Codec limit UInt64 :=
  number 8 UInt64.ofNat UInt64.toNat (fun a => a.toNat_lt) (fun _ => UInt64.ofNat_toNat)

/-- Byte strings of `w` bytes. -/
def bytes (w : ℕ) : Codec limit (Vector UInt8 w) where
  encode v := v.toList
  decode bs := if h : w ≤ bs.length then
      some (⟨(bs.take w).toArray, by simp [h]⟩, bs.drop w)
    else none
  reads v rest _ := by
    have hlen : v.toList.length = w := by simp
    rw [dif_pos (by simp)]
    simp only [Option.some.injEq, Prod.mk.injEq]
    refine ⟨?_, List.drop_left' hlen⟩
    apply Vector.toList_inj.mp
    show (List.take w (v.toList ++ rest)) = v.toList
    exact List.take_left' hlen
  persists bs v rest more h := by
    by_cases hw : w ≤ bs.length
    · rw [dif_pos hw] at h
      simp only [Option.some.injEq, Prod.mk.injEq] at h
      rcases h with ⟨hv, hrest⟩
      rw [dif_pos (by rw [List.length_append]; omega)]
      simp only [Option.some.injEq, Prod.mk.injEq]
      refine ⟨?_, ?_⟩
      · rw [← hv]
        simp [List.take_append_of_le_length hw]
      · rw [← hrest, List.drop_append_of_le_length hw]
    · rw [dif_neg hw] at h
      simp at h

/-! ## Section 2: Composition -/

/-- One after the other, the second as the value of the first says. -/
def seq {γ : α → Type} (c : Codec limit α) (d : ∀ a, Codec limit (γ a)) : Codec limit (Σ a, γ a) where
  encode p := c.encode p.1 ++ (d p.1).encode p.2
  decode bs := do
    let (a, bs) ← c.decode bs
    let (b, bs) ← (d a).decode bs
    return (⟨a, b⟩, bs)
  reads p rest h := by
    rw [List.length_append] at h
    rw [List.append_assoc, c.reads p.1 _ (by omega)]
    simp only [Option.bind_eq_bind, Option.bind_some]
    rw [(d p.1).reads p.2 _ (by omega)]
    rfl
  persists bs p rest more h := by
    simp only [Option.bind_eq_bind, Option.bind_eq_some_iff] at h ⊢
    rcases h with ⟨⟨a, bs₁⟩, hc, ⟨b, bs₂⟩, hd, heq⟩
    refine ⟨(a, bs₁ ++ more), c.persists _ _ _ more hc, (b, bs₂ ++ more),
      (d a).persists _ _ _ more hd, ?_⟩
    simp only [Option.pure_def, Option.some.injEq, Prod.mk.injEq] at heq ⊢
    exact ⟨heq.1, by rw [heq.2]⟩

/-- The same bytes, read as values of another type. -/
def map (c : Codec limit α) (f : α → β) (g : β → α) (h : ∀ b, f (g b) = b) : Codec limit β where
  encode b := c.encode (g b)
  decode bs := (c.decode bs).map (fun p => (f p.1, p.2))
  reads b rest hfits := by
    rw [c.reads _ _ hfits, Option.map_some, h]
  persists bs b rest more hdecode := by
    rw [Option.map_eq_some_iff] at hdecode ⊢
    rcases hdecode with ⟨⟨a, rest'⟩, hc, heq⟩
    refine ⟨(a, rest' ++ more), c.persists _ _ _ more hc, ?_⟩
    simp only [Prod.mk.injEq] at heq ⊢
    exact ⟨heq.1, by rw [heq.2]⟩

/-! ## Section 3: Lists -/

/-- Read `n` elements. -/
def decodeMany (c : Codec limit α) : ℕ → List UInt8 → Option (List α × List UInt8)
  | 0,     bs => some ([], bs)
  | n + 1, bs => do
    let (a, bs) ← c.decode bs
    let (l, bs) ← decodeMany c n bs
    return (a :: l, bs)

theorem decodeMany_flatMap (c : Codec limit α) (l : List α) (rest : List UInt8)
    (h : (l.flatMap c.encode).length ≤ limit) :
    c.decodeMany l.length (l.flatMap c.encode ++ rest) = some (l, rest) := by
  induction l with
  | nil => rfl
  | cons a l ih =>
    simp only [List.flatMap_cons, List.length_append] at h
    simp only [List.length_cons, decodeMany, List.flatMap_cons, List.append_assoc]
    rw [c.reads a _ (by omega)]
    simp only [Option.bind_eq_bind, Option.bind_some]
    rw [ih (by omega)]
    rfl

theorem decodeMany_persists (c : Codec limit α) {n : ℕ} {bs : List UInt8} {l : List α}
    {rest : List UInt8} (h : c.decodeMany n bs = some (l, rest)) (more : List UInt8) :
    c.decodeMany n (bs ++ more) = some (l, rest ++ more) := by
  induction n generalizing bs l rest with
  | zero =>
    simp only [decodeMany, Option.some.injEq, Prod.mk.injEq] at h ⊢
    exact ⟨h.1, by rw [h.2]⟩
  | succ n ih =>
    simp only [decodeMany, Option.bind_eq_bind, Option.bind_eq_some_iff] at h ⊢
    rcases h with ⟨⟨a, bs₁⟩, hc, ⟨l₁, bs₂⟩, hmany, heq⟩
    refine ⟨(a, bs₁ ++ more), c.persists _ _ _ more hc, (l₁, bs₂ ++ more), ih hmany, ?_⟩
    simp only [Option.pure_def, Option.some.injEq, Prod.mk.injEq] at heq ⊢
    exact ⟨heq.1, by rw [heq.2]⟩

theorem length_decodeMany (c : Codec limit α) {n : ℕ} {bs : List UInt8} {l : List α}
    {rest : List UInt8} (h : c.decodeMany n bs = some (l, rest)) : l.length = n := by
  induction n generalizing bs l rest with
  | zero =>
    simp only [decodeMany, Option.some.injEq, Prod.mk.injEq] at h
    rw [← h.1]
    rfl
  | succ n ih =>
    simp only [decodeMany, Option.bind_eq_bind, Option.bind_eq_some_iff] at h
    rcases h with ⟨⟨a, bs₁⟩, -, ⟨l₁, bs₂⟩, hmany, heq⟩
    simp only [Option.pure_def, Option.some.injEq, Prod.mk.injEq] at heq
    rw [← heq.1, List.length_cons, ih hmany]

/-- Lists of a length that is known. -/
def many (c : Codec limit α) (n : ℕ) : Codec limit {l : List α // l.length = n} where
  encode l := l.val.flatMap c.encode
  decode bs := (c.decodeMany n bs).pbind
    (fun p hp => some (⟨p.1, c.length_decodeMany hp⟩, p.2))
  reads l rest h := by
    have hmany := c.decodeMany_flatMap l.val rest h
    rw [l.property] at hmany
    rw [Option.pbind_eq_some_iff]
    exact ⟨(l.val, rest), hmany, rfl⟩
  persists bs l rest more h := by
    rw [Option.pbind_eq_some_iff] at h ⊢
    rcases h with ⟨p, hmany, heq⟩
    simp only [Option.some.injEq, Prod.mk.injEq] at heq
    rcases heq with ⟨hl, hrest⟩
    refine ⟨(p.1, p.2 ++ more), c.decodeMany_persists hmany more, ?_⟩
    simp only [Option.some.injEq, Prod.mk.injEq]
    exact ⟨hl, by rw [hrest]⟩

/-- Read a CompactSize. -/
def decodeCount : List UInt8 → Option (ℕ × List UInt8)
  | []      => none
  | b :: bs =>
    if b < 0xFD then some (b.toNat, bs)
    else (split (if b = 0xFD then 2 else if b = 0xFE then 4 else 8) bs).map
      (fun p => (leNat p.1, p.2))

theorem decodeCount_compactSize {n : ℕ} (h : n < 2 ^ 64) (rest : List UInt8) :
    decodeCount (compactSize n ++ rest) = some (n, rest) := by
  unfold compactSize
  split_ifs with h₁ h₂ h₃
  · have hbyte : (UInt8.ofNat n).toNat = n := by
      rw [UInt8.toNat_ofNat']
      omega
    have hlt : UInt8.ofNat n < 0xFD := by
      rw [UInt8.lt_iff_toNat_lt, hbyte]
      exact h₁
    simp only [List.cons_append, List.nil_append, decodeCount, if_pos hlt, hbyte]
  · simp only [List.cons_append, decodeCount]
    rw [if_neg (by decide), if_pos trivial, split_append (length_leBytes ..), Option.map_some,
      leNat_leBytes 2 (by omega)]
  · simp only [List.cons_append, decodeCount]
    rw [if_neg (by decide), if_neg (by decide), if_pos trivial, split_append (length_leBytes ..),
      Option.map_some, leNat_leBytes 4 (by omega)]
  · simp only [List.cons_append, decodeCount]
    rw [if_neg (by decide), if_neg (by decide), if_neg (by decide),
      split_append (length_leBytes ..), Option.map_some, leNat_leBytes 8 (by omega)]

theorem decodeCount_persists {bs rest : List UInt8} {n : ℕ} (h : decodeCount bs = some (n, rest))
    (more : List UInt8) : decodeCount (bs ++ more) = some (n, rest ++ more) := by
  cases bs with
  | nil => simp [decodeCount] at h
  | cons b bs =>
    simp only [decodeCount, List.cons_append] at h ⊢
    by_cases hb : b < 0xFD
    · rw [if_pos hb] at h ⊢
      simp only [Option.some.injEq, Prod.mk.injEq] at h ⊢
      exact ⟨h.1, by rw [h.2]⟩
    · rw [if_neg hb, Option.map_eq_some_iff] at h ⊢
      rcases h with ⟨⟨enc, rest'⟩, hsplit, heq⟩
      refine ⟨(enc, rest' ++ more), split_persists hsplit more, ?_⟩
      simp only [Prod.mk.injEq] at heq ⊢
      exact ⟨heq.1, by rw [heq.2]⟩

/-- A proper prefix of a CompactSize is not read. -/
theorem decodeCount_short {n : ℕ} (h : n < 2 ^ 64) {bs more : List UInt8}
    (hwhole : bs ++ more = compactSize n) (hmore : more ≠ []) : decodeCount bs = none := by
  cases hdecode : decodeCount bs with
  | none => rfl
  | some p =>
    have hlonger := decodeCount_persists hdecode more
    have hread := decodeCount_compactSize h []
    rw [List.append_nil, ← hwhole, hlonger] at hread
    simp only [Option.some.injEq, Prod.mk.injEq, List.append_eq_nil_iff] at hread
    exact absurd hread.2.2 hmore

/-- A list behind its count. Its elements take at least a byte each, which is
    what keeps a count within the limit. -/
def list (c : Codec limit α) (hlimit : limit < 2 ^ 64) (hpos : ∀ a, 0 < (c.encode a).length) :
    Codec limit (List α) where
  encode := counted c.encode
  decode bs := do
    let (n, bs) ← decodeCount bs
    c.decodeMany n bs
  reads l rest h := by
    have hlen := mul_length_le_flatMap (fun a (_ : a ∈ l) => hpos a)
    simp only [counted, List.length_append] at h
    simp only [counted, List.append_assoc]
    rw [decodeCount_compactSize (by omega)]
    simp only [Option.bind_eq_bind, Option.bind_some]
    exact c.decodeMany_flatMap l rest (by omega)
  persists bs l rest more h := by
    simp only [Option.bind_eq_bind, Option.bind_eq_some_iff] at h ⊢
    rcases h with ⟨⟨n, bs₁⟩, hcount, hmany⟩
    exact ⟨(n, bs₁ ++ more), decodeCount_persists hcount more, c.decodeMany_persists hmany more⟩

/-- A byte string behind its length. -/
def string (hlimit : limit < 2 ^ 64) : Codec limit (List UInt8) where
  encode := varBytes
  decode bs := do
    let (n, bs) ← decodeCount bs
    split n bs
  reads bs rest h := by
    simp only [varBytes, List.length_append] at h
    simp only [varBytes, List.append_assoc]
    rw [decodeCount_compactSize (by omega)]
    simp only [Option.bind_eq_bind, Option.bind_some]
    exact split_append rfl rest
  persists bs enc rest more h := by
    simp only [Option.bind_eq_bind, Option.bind_eq_some_iff] at h ⊢
    rcases h with ⟨⟨n, bs₁⟩, hcount, hsplit⟩
    exact ⟨(n, bs₁ ++ more), decodeCount_persists hcount more, split_persists hsplit more⟩

end Codec
