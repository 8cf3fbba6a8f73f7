import Mathlib.Algebra.Order.Ring.Abs
import Mathlib.Algebra.Order.Ring.Rat
import Mathlib.Data.Rat.Cast.Order
import Mathlib.Tactic.FieldSimp
import Mathlib.Tactic.Linarith
import Mathlib.Tactic.Positivity

/-! # What a column can hold

    The values of a database column by its type, its character set and whether it is
    nullable: integers and decimals by range and scale, texts by length in characters or
    in bytes and by the characters of the set, points in time by fractional digits,
    members of a list. `Fits` says that one type takes every value of another unchanged;
    for each pair of types that can, there is one lemma that says exactly when.

    **Main results.** `within_iff`: a column takes what another holds if it takes NULL and
    the type fits. `fits_iff`: between types of a kind only a sign, characters, bytes or
    members can be lost. -/

namespace Column

/-! ## Section 1: Character sets -/

/-- From the narrowest to the widest. -/
inductive Charset where
  | ascii
  | latin1
  | utf8
  | utf8mb4
deriving DecidableEq, Repr

namespace Charset

def rank : Charset → ℕ
  | ascii   => 1
  | latin1  => 2
  | utf8    => 3
  | utf8mb4 => 4

/-- The characters of `latin1` (code page 1252) between those of ASCII and 0xA0. -/
def cp1252 : List ℕ :=
  [0x20AC, 0x81, 0x201A, 0x0192, 0x201E, 0x2026, 0x2020, 0x2021, 0x02C6, 0x2030, 0x0160, 0x2039,
    0x0152, 0x8D, 0x017D, 0x8F, 0x90, 0x2018, 0x2019, 0x201C, 0x201D, 0x2022, 0x2013, 0x2014,
    0x02DC, 0x2122, 0x0161, 0x203A, 0x0153, 0x9D, 0x017E, 0x0178]

def has : Charset → Char → Bool
  | ascii,   c => c.toNat < 0x80
  | latin1,  c => c.toNat < 0x80 || (0xA0 ≤ c.toNat && c.toNat ≤ 0xFF) || cp1252.contains c.toNat
  | utf8,    c => c.toNat < 0x10000
  | utf8mb4, _ => true

/-- The bytes a character takes. -/
def width : Charset → Char → ℕ
  | ascii,  _ => 1
  | latin1, _ => 1
  | _,      c => c.utf8Size

/-- The bytes a text takes. -/
def size (charset : Charset) (text : List Char) : ℕ := (text.map charset.width).sum

/-- What a character of the one set takes at most in the other. -/
def maxWidth : Charset → Charset → ℕ
  | _,       ascii  => 1
  | _,       latin1 => 1
  | ascii,   _      => 1
  | utf8mb4, _      => 4
  | _,       _      => 3

/-- How much a text of the one set grows at most in the other. -/
def growth : Charset → Charset → ℕ
  | latin1, utf8    => 3
  | latin1, utf8mb4 => 3
  | _,      _       => 1

theorem lt_of_mem_cp1252 {n : ℕ} (h : cp1252.contains n = true) : n < 0x10000 := by
  have hall : ∀ m ∈ cp1252, m < 0x10000 := by decide
  exact hall n (List.contains_iff_mem.mp h)

theorem lt_of_has_latin1 {c : Char} (h : latin1.has c = true) : c.toNat < 0x10000 := by
  unfold has at h
  simp only [Bool.or_eq_true, Bool.and_eq_true, decide_eq_true_eq] at h
  obtain (h | h) | h := h
  · omega
  · omega
  · exact lt_of_mem_cp1252 h

/-- A wider set has the characters of a narrower one. -/
theorem has_of_rank_le {charset wider : Charset} (hrank : charset.rank ≤ wider.rank) {c : Char}
    (h : charset.has c = true) : wider.has c = true := by
  cases wider with
  | utf8mb4 => rfl
  | utf8 =>
    refine decide_eq_true ?_
    cases charset with
    | ascii =>
      have hlow := of_decide_eq_true h
      omega
    | latin1 => exact lt_of_has_latin1 h
    | utf8 => exact of_decide_eq_true h
    | utf8mb4 => exact absurd hrank (by decide)
  | latin1 =>
    cases charset with
    | ascii =>
      have hlow := of_decide_eq_true h
      have hor : (decide (c.toNat < 0x80) || (0xA0 ≤ c.toNat && c.toNat ≤ 0xFF)) = true :=
        (Bool.or_eq_true _ _).mpr (Or.inl (decide_eq_true hlow))
      exact (Bool.or_eq_true _ _).mpr (Or.inl hor)
    | latin1 => exact h
    | utf8 => exact absurd hrank (by decide)
    | utf8mb4 => exact absurd hrank (by decide)
  | ascii =>
    cases charset with
    | ascii => exact h
    | latin1 => exact absurd hrank (by decide)
    | utf8 => exact absurd hrank (by decide)
    | utf8mb4 => exact absurd hrank (by decide)

/-- A narrower set lacks one. -/
theorem exists_of_rank_lt {charset narrower : Charset} (hrank : narrower.rank < charset.rank) :
    ∃ c, charset.has c = true ∧ narrower.has c = false := by
  cases narrower with
  | ascii =>
    refine ⟨'é', ?_, by decide⟩
    cases charset with
    | ascii => exact absurd hrank (by decide)
    | latin1 => decide
    | utf8 => decide
    | utf8mb4 => rfl
  | latin1 =>
    refine ⟨'Ā', ?_, by decide⟩
    cases charset with
    | ascii => exact absurd hrank (by decide)
    | latin1 => exact absurd hrank (by decide)
    | utf8 => decide
    | utf8mb4 => rfl
  | utf8 =>
    refine ⟨Char.ofNat 0x1F600, ?_, by decide⟩
    cases charset with
    | utf8mb4 => rfl
    | ascii => exact absurd hrank (by decide)
    | latin1 => exact absurd hrank (by decide)
    | utf8 => exact absurd hrank (by decide)
  | utf8mb4 =>
    cases charset with
    | ascii => exact absurd hrank (by decide)
    | latin1 => exact absurd hrank (by decide)
    | utf8 => exact absurd hrank (by decide)
    | utf8mb4 => exact absurd hrank (by decide)

theorem utf8Size_eq_one {c : Char} (h : c.toNat < 0x80) : c.utf8Size = 1 :=
  Char.utf8Size_eq_one_iff.mpr (by
    show c.val ≤ 127
    rw [UInt32.le_iff_toNat_le]
    show c.toNat ≤ 127
    omega)

theorem utf8Size_le_three {c : Char} (h : c.toNat < 0x10000) : c.utf8Size ≤ 3 := by
  by_contra hlt
  have hfour : c.utf8Size = 4 := le_antisymm (Char.utf8Size_le_four c) (by omega)
  have hlarge := Char.utf8Size_eq_four_iff.mp hfour
  rw [UInt32.lt_iff_toNat_lt] at hlarge
  have hval : 65535 < c.toNat := hlarge
  omega

theorem width_le_maxWidth {charset : Charset} (other : Charset) {c : Char} (h : charset.has c = true) :
    other.width c ≤ charset.maxWidth other := by
  cases other with
  | ascii =>
    cases charset <;> exact Nat.le_refl 1
  | latin1 =>
    cases charset <;> exact Nat.le_refl 1
  | utf8 =>
    cases charset with
    | ascii => exact (utf8Size_eq_one (of_decide_eq_true h)).le
    | latin1 => exact utf8Size_le_three (lt_of_has_latin1 h)
    | utf8 => exact utf8Size_le_three (of_decide_eq_true h)
    | utf8mb4 => exact Char.utf8Size_le_four c
  | utf8mb4 =>
    cases charset with
    | ascii => exact (utf8Size_eq_one (of_decide_eq_true h)).le
    | latin1 => exact utf8Size_le_three (lt_of_has_latin1 h)
    | utf8 => exact utf8Size_le_three (of_decide_eq_true h)
    | utf8mb4 => exact Char.utf8Size_le_four c

theorem exists_widest (charset other : Charset) :
    ∃ c, charset.has c = true ∧ other.width c = charset.maxWidth other := by
  cases charset with
  | ascii => exact ⟨'a', by decide, by cases other <;> rfl⟩
  | latin1 => exact ⟨'€', by decide, by cases other <;> rfl⟩
  | utf8 => exact ⟨'€', by decide, by cases other <;> rfl⟩
  | utf8mb4 => exact ⟨Char.ofNat 0x1F600, by decide, by cases other <;> rfl⟩

theorem one_le_width (charset : Charset) (c : Char) : 1 ≤ charset.width c := by
  cases charset with
  | ascii => exact Nat.le_refl 1
  | latin1 => exact Nat.le_refl 1
  | utf8 => exact Char.utf8Size_pos c
  | utf8mb4 => exact Char.utf8Size_pos c

theorem width_le_four (charset : Charset) (c : Char) : charset.width c ≤ 4 := by
  cases charset with
  | ascii => exact Nat.le_of_ble_eq_true rfl
  | latin1 => exact Nat.le_of_ble_eq_true rfl
  | utf8 => exact Char.utf8Size_le_four c
  | utf8mb4 => exact Char.utf8Size_le_four c

theorem width_le_growth {charset : Charset} (other : Charset) {c : Char} (h : charset.has c = true) :
    other.width c ≤ charset.growth other * charset.width c := by
  have hone := charset.one_le_width c
  cases charset with
  | ascii =>
    have hmax := width_le_maxWidth other h
    have hwidth : maxWidth ascii other = 1 := by cases other <;> rfl
    have hgrowth : growth ascii other = 1 := by cases other <;> rfl
    rw [hgrowth, Nat.one_mul]
    omega
  | latin1 =>
    have hmax := width_le_maxWidth other h
    have hsame : maxWidth latin1 other = growth latin1 other := by cases other <;> rfl
    rw [hsame] at hmax
    exact hmax.trans (Nat.mul_one _).ge
  | utf8 =>
    have hgrowth : growth utf8 other = 1 := by cases other <;> rfl
    rw [hgrowth, Nat.one_mul]
    cases other with
    | ascii => exact hone
    | latin1 => exact hone
    | utf8 => exact Nat.le_refl _
    | utf8mb4 => exact Nat.le_refl _
  | utf8mb4 =>
    have hgrowth : growth utf8mb4 other = 1 := by cases other <;> rfl
    rw [hgrowth, Nat.one_mul]
    cases other with
    | ascii => exact hone
    | latin1 => exact hone
    | utf8 => exact Nat.le_refl _
    | utf8mb4 => exact Nat.le_refl _

/-- A character of one byte that grows as much as any. -/
theorem exists_growing (charset other : Charset) :
    ∃ c, charset.has c = true ∧ charset.width c = 1 ∧ other.width c = charset.growth other := by
  cases charset with
  | ascii => exact ⟨'a', by decide, rfl, by cases other <;> rfl⟩
  | latin1 => exact ⟨'€', by decide, rfl, by cases other <;> rfl⟩
  | utf8 => exact ⟨'a', by decide, rfl, by cases other <;> rfl⟩
  | utf8mb4 => exact ⟨'a', by decide, rfl, by cases other <;> rfl⟩

theorem size_replicate (charset : Charset) (n : ℕ) (c : Char) :
    charset.size (List.replicate n c) = n * charset.width c := by
  unfold size
  rw [List.map_replicate, List.sum_replicate, nsmul_eq_mul]
  rfl

theorem size_le_length_mul {charset : Charset} {text : List Char} {w : ℕ}
    (h : ∀ c ∈ text, charset.width c ≤ w) : charset.size text ≤ text.length * w := by
  unfold size
  induction text with
  | nil => exact Nat.zero_le _
  | cons c text ih =>
    have hc := h c List.mem_cons_self
    have hrest := ih (fun d hd => h d (List.mem_cons_of_mem c hd))
    rw [List.map_cons, List.sum_cons, List.length_cons, Nat.succ_mul]
    omega

theorem size_le_growth {charset : Charset} (other : Charset) {text : List Char}
    (h : ∀ c ∈ text, charset.has c = true) :
    other.size text ≤ charset.growth other * charset.size text := by
  unfold size
  induction text with
  | nil => exact Nat.zero_le _
  | cons c text ih =>
    have hc := width_le_growth other (h c List.mem_cons_self)
    have hrest := ih (fun d hd => h d (List.mem_cons_of_mem c hd))
    rw [List.map_cons, List.sum_cons, List.map_cons, List.sum_cons, Nat.mul_add]
    omega

end Charset

/-! ## Section 2: Types and values -/

inductive IntKind where
  | tinyint
  | smallint
  | mediumint
  | int
  | bigint
deriving DecidableEq, Repr

namespace IntKind

def bits : IntKind → ℕ
  | tinyint   => 8
  | smallint  => 16
  | mediumint => 24
  | int       => 32
  | bigint    => 64

def least (kind : IntKind) (isUnsigned : Bool) : ℤ := if isUnsigned then 0 else -2 ^ (kind.bits - 1)

def greatest (kind : IntKind) (isUnsigned : Bool) : ℤ :=
  if isUnsigned then 2 ^ kind.bits - 1 else 2 ^ (kind.bits - 1) - 1

/-- How many decimal digits the whole range needs. -/
def digits : IntKind → Bool → ℕ
  | tinyint,   _     => 3
  | smallint,  _     => 5
  | mediumint, false => 7
  | mediumint, true  => 8
  | int,       _     => 10
  | bigint,    false => 19
  | bigint,    true  => 20

theorem abs_lt_of_range {kind : IntKind} {isUnsigned : Bool} {k : ℤ}
    (hleast : kind.least isUnsigned ≤ k) (hgreatest : k ≤ kind.greatest isUnsigned) :
    |k| < 10 ^ kind.digits isUnsigned := by
  rw [abs_lt]
  cases kind <;> cases isUnsigned <;>
    simp only [least, greatest, digits, bits, Bool.false_eq_true, if_true, if_false] at * <;>
    norm_num at * <;> omega

end IntKind

inductive ColumnType where
  | integer (kind : IntKind) (isUnsigned : Bool)
  | decimal (precision scale : ℕ) (isUnsigned : Bool)
  /-- so many characters -/
  | chars (length : ℕ)
  /-- characters in so many bytes -/
  | text (capacity : ℕ)
  | blob (capacity : ℕ)
  | date
  | moment (fsp : ℕ)
  | time (fsp : ℕ)
  | enum (members : List (List Char))
  | set (members : List (List Char))
deriving DecidableEq, Repr

inductive Value where
  | null
  | number (q : ℚ)
  | text (chars : List Char)
  | bytes (bytes : List UInt8)
  | moment (day : ℤ) (second micros : ℕ)
  | duration (second : ℤ) (micros : ℕ)
  | member (name : List Char)
  | members (names : List (List Char))

/-- What a column of the type takes besides NULL. A text comes in the set it was written
    in; a column of texts holds its characters, a blob the bytes they were written in. -/
def ColumnType.holds (written charset : Charset) : ColumnType → Value → Prop
  | integer kind isUnsigned, .number q =>
      ∃ k : ℤ, q = k ∧ kind.least isUnsigned ≤ k ∧ k ≤ kind.greatest isUnsigned
  | decimal precision scale isUnsigned, .number q =>
      ∃ m : ℤ, q * 10 ^ scale = m ∧ |m| < 10 ^ precision ∧ (isUnsigned = true → 0 ≤ m)
  | chars length,  .text t => t.length ≤ length ∧ ∀ c ∈ t, charset.has c = true
  | text capacity, .text t => charset.size t ≤ capacity ∧ ∀ c ∈ t, charset.has c = true
  | blob capacity, .text t => written.size t ≤ capacity
  | blob capacity, .bytes b => b.length ≤ capacity
  | date,       .moment _ second micros => second = 0 ∧ micros = 0
  | moment fsp, .moment _ second micros => second < 86400 ∧ 10 ^ (6 - fsp) ∣ micros
  | time fsp,   .duration _ micros => 10 ^ (6 - fsp) ∣ micros
  | enum members, .member name => name ∈ members
  | set members,  .members names => ∀ name ∈ names, name ∈ members
  | _, _ => False

structure Domain where
  type     : ColumnType
  charset  : Charset
  nullable : Bool

/-- What a column holds of what was written in the set `written`. -/
def Domain.holds (written : Charset) (column : Domain) : Value → Prop
  | .null => column.nullable = true
  | v     => column.type.holds written column.charset v

/-- Every value of the column is one of `next`, unchanged. -/
def Domain.Within (live next : Domain) : Prop :=
  ∀ v, live.holds live.charset v → next.holds live.charset v

/-- Every value of the type but NULL is one of `next`, unchanged. -/
def Fits (charset charset' : Charset) (type next : ColumnType) : Prop :=
  ∀ v, type.holds charset charset v → next.holds charset charset' v

theorem not_holds_null (written charset : Charset) (type : ColumnType) :
    ¬type.holds written charset .null := by
  intro h
  cases type <;> exact h.elim

theorem within_iff (live next : Domain) :
    live.Within next ↔ (live.nullable = true → next.nullable = true) ∧
      Fits live.charset next.charset live.type next.type := by
  constructor
  · intro h
    refine ⟨h .null, fun v hv => ?_⟩
    have hnext := h v
    cases v with
    | null => exact absurd hv (not_holds_null _ _ _)
    | _ => exact hnext hv
  · intro h v hv
    cases v with
    | null => exact h.1 hv
    | _ => exact h.2 _ hv

variable {charset charset' : Charset}

/-! ## Section 3: Numbers -/

theorem holds_minus_one {kind : IntKind} :
    (ColumnType.integer kind false).holds charset charset (.number (-1)) := by
  refine ⟨-1, by norm_num, ?_, ?_⟩
  · cases kind <;> decide
  · cases kind <;> decide

theorem nonneg_of_holds {isUnsigned : Bool} {kind : IntKind} {q : ℚ} (h : isUnsigned = true)
    (hq : (ColumnType.integer kind isUnsigned).holds charset charset' (.number q)) : 0 ≤ q := by
  obtain ⟨k, rfl, hleast, -⟩ := hq
  unfold IntKind.least at hleast
  rw [if_pos h] at hleast
  exact_mod_cast hleast

theorem nonneg_of_decimal {isUnsigned : Bool} {precision scale : ℕ} {q : ℚ} (h : isUnsigned = true)
    (hq : (ColumnType.decimal precision scale isUnsigned).holds charset charset' (.number q)) :
    0 ≤ q := by
  obtain ⟨m, hm, -, hsign⟩ := hq
  have hpow : (0 : ℚ) < 10 ^ scale := by positivity
  have hnonneg : (0 : ℚ) ≤ q * 10 ^ scale := by
    rw [hm]
    exact_mod_cast hsign h
  exact nonneg_of_mul_nonneg_left hnonneg hpow

/-- A wider integer type, or the same one with no less of a sign, takes all but what a
    sign that is lost takes away. -/
theorem integer_fits_integer {kind kind' : IntKind} {isUnsigned isUnsigned' : Bool}
    (h : kind.bits < kind'.bits ∨ kind = kind' ∧ (isUnsigned = true → isUnsigned' = true)) :
    Fits charset charset' (.integer kind isUnsigned) (.integer kind' isUnsigned') ↔
      ¬(isUnsigned = false ∧ isUnsigned' = true) := by
  constructor
  · intro hfits hsign
    rw [hsign.1, hsign.2] at hfits
    have hnonneg := nonneg_of_holds rfl (hfits _ holds_minus_one)
    norm_num at hnonneg
  · intro hsign v hv
    cases v with
    | number q =>
      obtain ⟨k, hq, hleast, hgreatest⟩ := hv
      refine ⟨k, hq, le_trans ?_ hleast, le_trans hgreatest ?_⟩
      · cases kind <;> cases kind' <;> cases isUnsigned <;> cases isUnsigned' <;>
          simp_all [IntKind.least, IntKind.bits]
      · cases kind <;> cases kind' <;> cases isUnsigned <;> cases isUnsigned' <;>
          simp_all [IntKind.greatest, IntKind.bits]
    | _ => exact hv

theorem integer_fits_decimal {kind : IntKind} {isUnsigned isUnsigned' : Bool} {precision scale : ℕ}
    (h : kind.digits isUnsigned + scale ≤ precision) :
    Fits charset charset' (.integer kind isUnsigned) (.decimal precision scale isUnsigned') ↔
      ¬(isUnsigned = false ∧ isUnsigned' = true) := by
  constructor
  · intro hfits hsign
    rw [hsign.1, hsign.2] at hfits
    have hnonneg := nonneg_of_decimal rfl (hfits _ holds_minus_one)
    norm_num at hnonneg
  · intro hsign v hv
    cases v with
    | number q =>
      have hunsigned : isUnsigned' = true → isUnsigned = true := by
        intro h'
        cases isUnsigned with
        | false => exact absurd ⟨rfl, h'⟩ hsign
        | true => rfl
      have hnonneg : isUnsigned' = true → 0 ≤ q := fun h' => nonneg_of_holds (hunsigned h') hv
      obtain ⟨k, rfl, hleast, hgreatest⟩ := hv
      refine ⟨k * 10 ^ scale, by push_cast; rfl, ?_, ?_⟩
      · rw [abs_mul, abs_of_pos (by positivity : (0 : ℤ) < 10 ^ scale)]
        calc |k| * 10 ^ scale < 10 ^ kind.digits isUnsigned * 10 ^ scale :=
              mul_lt_mul_of_pos_right (IntKind.abs_lt_of_range hleast hgreatest) (by positivity)
          _ = 10 ^ (kind.digits isUnsigned + scale) := (pow_add _ _ _).symm
          _ ≤ 10 ^ precision := pow_le_pow_right₀ (by norm_num) h
      · intro h'
        have hk : (0 : ℤ) ≤ k := by exact_mod_cast hnonneg h'
        positivity
    | _ => exact hv

theorem decimal_fits_decimal {precision scale precision' scale' : ℕ} {isUnsigned isUnsigned' : Bool}
    (hpos : 0 < precision) (hwhole : precision + scale' ≤ precision' + scale) (hscale : scale ≤ scale') :
    Fits charset charset' (.decimal precision scale isUnsigned)
        (.decimal precision' scale' isUnsigned') ↔ ¬(isUnsigned = false ∧ isUnsigned' = true) := by
  constructor
  · intro hfits hsign
    rw [hsign.1, hsign.2] at hfits
    have hpow : (0 : ℚ) < 10 ^ scale := by positivity
    -- the smallest negative value fits the one and not the other
    have hheld : (ColumnType.decimal precision scale false).holds charset charset
        (.number (-1 / 10 ^ scale)) := by
      refine ⟨-1, by field_simp; norm_num, ?_, fun h => Bool.noConfusion h⟩
      rw [abs_neg, abs_one]
      exact one_lt_pow₀ (by norm_num) (by omega)
    have hnonneg := nonneg_of_decimal rfl (hfits _ hheld)
    have hneg : (-1 : ℚ) / 10 ^ scale < 0 := div_neg_of_neg_of_pos (by norm_num) hpow
    linarith
  · intro hsign v hv
    cases v with
    | number q =>
      have hunsigned : isUnsigned' = true → isUnsigned = true := by
        intro h'
        cases isUnsigned with
        | false => exact absurd ⟨rfl, h'⟩ hsign
        | true => rfl
      -- the unscaled number gets the digits that the new scale adds
      obtain ⟨m, hm, hrange, hpositive⟩ := hv
      have hsplit : scale' = scale + (scale' - scale) := by omega
      refine ⟨m * 10 ^ (scale' - scale), ?_, ?_, fun h' => ?_⟩
      · rw [hsplit, pow_add, ← mul_assoc, hm]
        push_cast
        rw [← hsplit]
      · rw [abs_mul, abs_of_pos (by positivity : (0 : ℤ) < 10 ^ (scale' - scale))]
        calc |m| * 10 ^ (scale' - scale) < 10 ^ precision * 10 ^ (scale' - scale) :=
              mul_lt_mul_of_pos_right hrange (by positivity)
          _ = 10 ^ (precision + (scale' - scale)) := (pow_add _ _ _).symm
          _ ≤ 10 ^ precision' := pow_le_pow_right₀ (by norm_num) (by omega)
      · have hm0 := hpositive (hunsigned h')
        positivity
    | _ => exact hv

/-! ## Section 4: Texts -/

theorem chars_fits_chars {length length' : ℕ} (h : length ≤ length') :
    Fits charset charset' (.chars length) (.chars length') ↔
      ¬(0 < length ∧ charset'.rank < charset.rank) := by
  constructor
  · intro hfits hlost
    obtain ⟨c, hc, hc'⟩ := Charset.exists_of_rank_lt hlost.2
    have hnext := hfits (.text [c]) ⟨hlost.1, fun d hd => by rwa [List.mem_singleton.mp hd]⟩
    rw [hnext.2 c List.mem_cons_self] at hc'
    cases hc'
  · intro hkept v hv
    cases v with
    | text text =>
      refine ⟨hv.1.trans h, fun c hc => ?_⟩
      have hlength := List.length_pos_of_mem hc
      have hrank : charset.rank ≤ charset'.rank := by
        by_contra hlt
        exact hkept ⟨lt_of_lt_of_le hlength hv.1, by omega⟩
      exact Charset.has_of_rank_le hrank (hv.2 c hc)
    | _ => exact hv

theorem chars_fits_text {length capacity : ℕ} :
    Fits charset charset' (.chars length) (.text capacity) ↔
      ¬(0 < length ∧ charset'.rank < charset.rank) ∧
        length * charset.maxWidth charset' ≤ capacity := by
  constructor
  · intro hfits
    constructor
    · intro hlost
      obtain ⟨c, hc, hc'⟩ := Charset.exists_of_rank_lt hlost.2
      have hnext := hfits (.text [c]) ⟨hlost.1, fun d hd => by rwa [List.mem_singleton.mp hd]⟩
      rw [hnext.2 c List.mem_cons_self] at hc'
      cases hc'
    · obtain ⟨c, hc, hwidth⟩ := Charset.exists_widest charset charset'
      have hnext := hfits (.text (List.replicate length c))
        ⟨(List.length_replicate).le, fun d hd => by rwa [List.eq_of_mem_replicate hd]⟩
      rw [← hwidth, ← Charset.size_replicate]
      exact hnext.1
  · intro hkept v hv
    cases v with
    | text text =>
      have hwidth := Charset.size_le_length_mul
        (fun c hc => Charset.width_le_maxWidth charset' (hv.2 c hc))
      refine ⟨(hwidth.trans (Nat.mul_le_mul_right _ hv.1)).trans hkept.2, fun c hc => ?_⟩
      have hlength := List.length_pos_of_mem hc
      have hrank : charset.rank ≤ charset'.rank := by
        by_contra hlt
        exact hkept.1 ⟨lt_of_lt_of_le hlength hv.1, by omega⟩
      exact Charset.has_of_rank_le hrank (hv.2 c hc)
    | _ => exact hv

theorem text_fits_text {capacity capacity' : ℕ} (hroom : 4 ≤ capacity) :
    Fits charset charset' (.text capacity) (.text capacity') ↔
      ¬charset'.rank < charset.rank ∧ charset.growth charset' * capacity ≤ capacity' := by
  constructor
  · intro hfits
    constructor
    · intro hlost
      obtain ⟨c, hc, hc'⟩ := Charset.exists_of_rank_lt hlost
      have hsize : charset.size [c] ≤ capacity := by
        have hwidth := charset.width_le_four c
        unfold Charset.size
        rw [List.map_singleton, List.sum_singleton]
        omega
      have hnext := hfits (.text [c]) ⟨hsize, fun d hd => by rwa [List.mem_singleton.mp hd]⟩
      rw [hnext.2 c List.mem_cons_self] at hc'
      cases hc'
    · obtain ⟨c, hc, hone, hgrows⟩ := Charset.exists_growing charset charset'
      have hsize : charset.size (List.replicate capacity c) ≤ capacity := by
        rw [Charset.size_replicate, hone, Nat.mul_one]
      have hnext := hfits (.text (List.replicate capacity c))
        ⟨hsize, fun d hd => by rwa [List.eq_of_mem_replicate hd]⟩
      have hnextSize := hnext.1
      rw [Charset.size_replicate, hgrows, Nat.mul_comm] at hnextSize
      exact hnextSize
  · intro hkept v hv
    cases v with
    | text text =>
      have hsize := Charset.size_le_growth charset' hv.2
      refine ⟨(hsize.trans (Nat.mul_le_mul_left _ hv.1)).trans hkept.2, fun c hc => ?_⟩
      exact Charset.has_of_rank_le (by omega) (hv.2 c hc)
    | _ => exact hv

/-! ## Section 5: Bytes, time and members -/

theorem chars_fits_blob {length capacity : ℕ} :
    Fits charset charset' (.chars length) (.blob capacity) ↔
      length * charset.maxWidth charset ≤ capacity := by
  constructor
  · intro hfits
    obtain ⟨c, hc, hwidth⟩ := Charset.exists_widest charset charset
    have hnext := hfits (.text (List.replicate length c))
      ⟨(List.length_replicate).le, fun d hd => by rwa [List.eq_of_mem_replicate hd]⟩
    rw [← hwidth, ← Charset.size_replicate]
    exact hnext
  · intro hkept v hv
    cases v with
    | text text =>
      have hwidth := Charset.size_le_length_mul
        (fun c hc => Charset.width_le_maxWidth charset (hv.2 c hc))
      exact (hwidth.trans (Nat.mul_le_mul_right _ hv.1)).trans hkept
    | _ => exact hv.elim

theorem blob_fits_blob {capacity capacity' : ℕ} :
    Fits charset charset' (.blob capacity) (.blob capacity') ↔ capacity ≤ capacity' := by
  constructor
  · intro hfits
    have hnext := hfits (.bytes (List.replicate capacity 0)) (List.length_replicate).le
    rw [← List.length_replicate (n := capacity) (a := (0 : UInt8))]
    exact hnext
  · intro hkept v hv
    cases v with
    | text text => exact le_trans hv hkept
    | bytes bytes => exact le_trans hv hkept
    | _ => exact hv

theorem date_fits_moment {fsp : ℕ} : Fits charset charset' .date (.moment fsp) := by
  intro v hv
  cases v with
  | moment day second micros =>
    obtain ⟨rfl, rfl⟩ := hv
    exact ⟨by decide, dvd_zero _⟩
  | _ => exact hv

theorem date_fits_date : Fits charset charset' .date .date := by
  intro v hv
  cases v with
  | moment day second micros => exact hv
  | _ => exact hv

theorem moment_fits_moment {fsp fsp' : ℕ} (h : fsp ≤ fsp') :
    Fits charset charset' (.moment fsp) (.moment fsp') := by
  intro v hv
  cases v with
  | moment day second micros => exact ⟨hv.1, (pow_dvd_pow 10 (by omega)).trans hv.2⟩
  | _ => exact hv

theorem time_fits_time {fsp fsp' : ℕ} (h : fsp ≤ fsp') :
    Fits charset charset' (.time fsp) (.time fsp') := by
  intro v hv
  cases v with
  | duration second micros => exact (pow_dvd_pow 10 (by omega)).trans hv
  | _ => exact hv

theorem enum_fits_enum {members members' : List (List Char)} :
    Fits charset charset' (.enum members) (.enum members') ↔
      ∀ name ∈ members, name ∈ members' := by
  constructor
  · exact fun hfits name hname => hfits (.member name) hname
  · intro hkept v hv
    cases v with
    | member name => exact hkept name hv
    | _ => exact hv

theorem set_fits_set {members members' : List (List Char)} :
    Fits charset charset' (.set members) (.set members') ↔
      ∀ name ∈ members, name ∈ members' := by
  constructor
  · intro hfits name hname
    refine hfits (.members [name]) ?_ name List.mem_cons_self
    intro other hother
    rwa [List.mem_singleton.mp hother]
  · intro hkept v hv
    cases v with
    | members names => exact fun name hname => hkept name (hv name hname)
    | _ => exact hv

/-! ## Section 6: What can still be lost -/

/-- The next type is of a kind with the live one and no smaller by its rank. -/
inductive Kindred : ColumnType → ColumnType → Prop
  | integer {kind kind' : IntKind} {isUnsigned isUnsigned' : Bool}
      (h : kind.bits < kind'.bits ∨ kind = kind' ∧ (isUnsigned = true → isUnsigned' = true)) :
      Kindred (.integer kind isUnsigned) (.integer kind' isUnsigned')
  | integerDecimal {kind : IntKind} {isUnsigned isUnsigned' : Bool} {precision scale : ℕ}
      (h : kind.digits isUnsigned + scale ≤ precision) :
      Kindred (.integer kind isUnsigned) (.decimal precision scale isUnsigned')
  | decimal {precision scale precision' scale' : ℕ} {isUnsigned isUnsigned' : Bool}
      (hpos : 0 < precision) (hwhole : precision + scale' ≤ precision' + scale)
      (hscale : scale ≤ scale') :
      Kindred (.decimal precision scale isUnsigned) (.decimal precision' scale' isUnsigned')
  | chars {length length' : ℕ} (h : length ≤ length') : Kindred (.chars length) (.chars length')
  | charsText (length capacity : ℕ) : Kindred (.chars length) (.text capacity)
  | text {capacity : ℕ} (capacity' : ℕ) (hroom : 4 ≤ capacity) :
      Kindred (.text capacity) (.text capacity')
  | charsBlob (length capacity : ℕ) : Kindred (.chars length) (.blob capacity)
  | blob (capacity capacity' : ℕ) : Kindred (.blob capacity) (.blob capacity')
  | date : Kindred .date .date
  | dateMoment (fsp : ℕ) : Kindred .date (.moment fsp)
  | moment {fsp fsp' : ℕ} (h : fsp ≤ fsp') : Kindred (.moment fsp) (.moment fsp')
  | time {fsp fsp' : ℕ} (h : fsp ≤ fsp') : Kindred (.time fsp) (.time fsp')
  | enum (members members' : List (List Char)) : Kindred (.enum members) (.enum members')
  | set (members members' : List (List Char)) : Kindred (.set members) (.set members')

/-- The numbers below zero. -/
def SignLost : ColumnType → ColumnType → Prop
  | .integer _ isUnsigned,   .integer _ isUnsigned'   => isUnsigned = false ∧ isUnsigned' = true
  | .integer _ isUnsigned,   .decimal _ _ isUnsigned' => isUnsigned = false ∧ isUnsigned' = true
  | .decimal _ _ isUnsigned, .decimal _ _ isUnsigned' => isUnsigned = false ∧ isUnsigned' = true
  | _, _ => False

/-- The characters that only the wider set has. -/
def CharsLost (charset charset' : Charset) : ColumnType → ColumnType → Prop
  | .chars length, .chars _ => 0 < length ∧ charset'.rank < charset.rank
  | .chars length, .text _  => 0 < length ∧ charset'.rank < charset.rank
  | .text _,       .text _  => charset'.rank < charset.rank
  | _, _ => False

/-- The end of the longest texts. -/
def BytesLost (charset charset' : Charset) : ColumnType → ColumnType → Prop
  | .chars length,  .text capacity  => capacity < length * charset.maxWidth charset'
  | .text capacity, .text capacity' => capacity' < charset.growth charset' * capacity
  | .chars length,  .blob capacity  => capacity < length * charset.maxWidth charset
  | .blob capacity, .blob capacity' => capacity' < capacity
  | _, _ => False

def MembersLost : ColumnType → ColumnType → Prop
  | .enum members, .enum members' => ∃ name ∈ members, name ∉ members'
  | .set members,  .set members'  => ∃ name ∈ members, name ∉ members'
  | _, _ => False

/-- Between types of a kind nothing else is lost. -/
theorem fits_iff {type next : ColumnType} (h : Kindred type next) :
    Fits charset charset' type next ↔ ¬(SignLost type next ∨ CharsLost charset charset' type next ∨
      BytesLost charset charset' type next ∨ MembersLost type next) := by
  cases h with
  | integer h =>
    rw [integer_fits_integer h]
    simp [SignLost, CharsLost, BytesLost, MembersLost]
  | integerDecimal h =>
    rw [integer_fits_decimal h]
    simp [SignLost, CharsLost, BytesLost, MembersLost]
  | decimal hpos hwhole hscale =>
    rw [decimal_fits_decimal hpos hwhole hscale]
    simp [SignLost, CharsLost, BytesLost, MembersLost]
  | chars h =>
    rw [chars_fits_chars h]
    simp [SignLost, CharsLost, BytesLost, MembersLost]
  | charsText length capacity =>
    rw [chars_fits_text]
    simp [SignLost, CharsLost, BytesLost, MembersLost]
  | text capacity' hroom =>
    rw [text_fits_text hroom]
    simp [SignLost, CharsLost, BytesLost, MembersLost]
  | charsBlob length capacity =>
    rw [chars_fits_blob]
    simp [SignLost, CharsLost, BytesLost, MembersLost]
  | blob capacity capacity' =>
    rw [blob_fits_blob]
    simp [SignLost, CharsLost, BytesLost, MembersLost]
  | date => simp [SignLost, CharsLost, BytesLost, MembersLost, date_fits_date]
  | dateMoment fsp => simp [SignLost, CharsLost, BytesLost, MembersLost, date_fits_moment]
  | moment h => simp [SignLost, CharsLost, BytesLost, MembersLost, moment_fits_moment h]
  | time h => simp [SignLost, CharsLost, BytesLost, MembersLost, time_fits_time h]
  | enum members members' =>
    rw [enum_fits_enum]
    simp [SignLost, CharsLost, BytesLost, MembersLost]
  | set members members' =>
    rw [set_fits_set]
    simp [SignLost, CharsLost, BytesLost, MembersLost]

end Column
