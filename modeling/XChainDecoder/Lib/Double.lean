import Mathlib.Algebra.Order.Field.Basic
import Mathlib.Algebra.Order.AbsoluteValue.Basic
import Mathlib.Data.Rat.Cast.Order
import Mathlib.Tactic.Linarith
import Mathlib.Tactic.NormNum
import Mathlib.Tactic.Positivity
import Mathlib.Tactic.Ring

/-! # Numbers of double precision

    A finite double stands for a rational number. A conversion is correctly rounded if it
    answers a double that no other is nearer to, and an infinity behind the largest ones.
    Integers below `2 ^ 53` are doubles, so they are met exactly; nothing else of the
    format is needed to tell them from the numbers behind. -/

/-- A double, up to the sign of zero. -/
inductive Double where
  | finite (q : ℚ)
  | infinite (negative : Bool)
  | nan
deriving DecidableEq

namespace Double

/-! ## Section 1: Rounding -/

/-- The rational numbers that are doubles. -/
def Representable (q : ℚ) : Prop :=
  ∃ m e : ℤ, |m| < 2 ^ 53 ∧ -1074 ≤ e ∧ e ≤ 971 ∧ q = m * 2 ^ e

/-- From here on a number rounds to an infinity. -/
def overflow : ℚ := 2 ^ 1024 - 2 ^ 970

/-- A correctly rounded conversion may answer this. -/
inductive RoundsTo (v : ℚ) : Double → Prop where
  | finite (q : ℚ) : |v| < overflow → Representable q →
      (∀ r, Representable r → |v - q| ≤ |v - r|) → RoundsTo v (.finite q)
  | infinite : overflow ≤ |v| → RoundsTo v (.infinite (v < 0))

theorem representable_intCast {z : ℤ} (h : |z| < 2 ^ 53) : Representable z :=
  ⟨z, 0, h, by decide, by decide, by simp⟩

theorem representable_two_pow : Representable (2 ^ 53) :=
  ⟨1, 53, by norm_num, by decide, by decide, by norm_num⟩

theorem representable_neg {q : ℚ} (h : Representable q) : Representable (-q) := by
  obtain ⟨m, e, hm, hlow, hhigh, rfl⟩ := h
  exact ⟨-m, e, by rwa [abs_neg], hlow, hhigh, by push_cast; ring⟩

theorem two_pow_lt_overflow : (2 : ℚ) ^ 53 < overflow := by
  have hsplit : (2 : ℚ) ^ 1024 = 2 ^ 970 * 2 ^ 54 := by rw [← pow_add]
  have hone : (1 : ℚ) ≤ 2 ^ 970 := one_le_pow₀ (by norm_num)
  unfold overflow
  rw [hsplit]
  generalize (2 : ℚ) ^ 970 = a at hone
  norm_num
  linarith

/-- A double is rounded to itself. -/
theorem RoundsTo.of_representable {v : ℚ} {x : Double} (h : RoundsTo v x) (hv : Representable v)
    (hlt : |v| < overflow) : x = .finite v := by
  cases h with
  | finite q _ _ hnear =>
    have hzero := hnear v hv
    rw [sub_self, abs_zero] at hzero
    have heq : v - q = 0 := abs_nonpos_iff.mp hzero
    rw [sub_eq_zero.mp heq]
  | infinite hover => exact absurd hlt (not_lt.mpr hover)

/-- Rounding does not cross a double from above. -/
theorem RoundsTo.ge {v r : ℚ} {x : Double} (h : RoundsTo v x) (hr : Representable r) (hle : r ≤ v) :
    (∃ q, x = .finite q ∧ r ≤ q) ∨ ∃ negative, x = .infinite negative := by
  cases h with
  | finite q _ _ hnear =>
    refine .inl ⟨q, rfl, ?_⟩
    have hclose := hnear r hr
    rw [abs_of_nonneg (sub_nonneg.mpr hle)] at hclose
    have := le_abs_self (v - q)
    linarith
  | infinite hover => exact .inr ⟨_, rfl⟩

/-- Nor from below. -/
theorem RoundsTo.le {v r : ℚ} {x : Double} (h : RoundsTo v x) (hr : Representable r) (hle : v ≤ r) :
    (∃ q, x = .finite q ∧ q ≤ r) ∨ x = .infinite (v < 0) := by
  cases h with
  | finite q _ _ hnear =>
    refine .inl ⟨q, rfl, ?_⟩
    have hclose := hnear r hr
    rw [abs_of_nonpos (sub_nonpos.mpr hle)] at hclose
    have := neg_abs_le (v - q)
    linarith
  | infinite hover => exact .inr rfl

/-! ## Section 2: Safe integers -/

def MAX_SAFE_INTEGER : ℕ := 2 ^ 53 - 1

/-- The integer a double is, if it is a safe one. -/
def safeInteger? : Double → Option ℤ
  | .finite q => if q.den = 1 ∧ q.num.natAbs ≤ MAX_SAFE_INTEGER then some q.num else none
  | _         => none

/-- `Number.isSafeInteger`. -/
def isSafeInteger (x : Double) : Bool := x.safeInteger?.isSome

/-- `x >= 0`. -/
def isNonneg : Double → Bool
  | .finite q           => 0 ≤ q
  | .infinite negative  => !negative
  | .nan                => false

theorem safeInteger?_eq_some_iff {x : Double} {z : ℤ} :
    x.safeInteger? = some z ↔ x = .finite z ∧ z.natAbs ≤ MAX_SAFE_INTEGER := by
  cases x with
  | finite q =>
    constructor
    · intro h
      simp only [safeInteger?] at h
      split_ifs at h with hsafe
      cases h
      refine ⟨?_, hsafe.2⟩
      rw [(Rat.den_eq_one_iff q).mp hsafe.1]
    · intro h
      obtain ⟨heq, hle⟩ := h
      cases heq
      simp only [safeInteger?]
      rw [if_pos ⟨Rat.den_intCast z, by simpa using hle⟩, Rat.num_intCast]
  | infinite negative => simp [safeInteger?]
  | nan => simp [safeInteger?]

theorem natAbs_le_maxSafe_iff {z : ℤ} : z.natAbs ≤ MAX_SAFE_INTEGER ↔ |z| < 2 ^ 53 := by
  unfold MAX_SAFE_INTEGER
  rw [Int.abs_eq_natAbs]
  omega

/-- A correctly rounded integer is the safe integer it is, or not safe at all. -/
theorem RoundsTo.safeInteger? {z : ℤ} {x : Double} (h : RoundsTo z x) :
    x.safeInteger? = if z.natAbs ≤ MAX_SAFE_INTEGER then some z else none := by
  by_cases hsafe : z.natAbs ≤ MAX_SAFE_INTEGER
  · rw [if_pos hsafe]
    have hsmall := natAbs_le_maxSafe_iff.mp hsafe
    have hcast : |(z : ℚ)| < 2 ^ 53 := by exact_mod_cast hsmall
    have hx := h.of_representable (representable_intCast hsmall) (hcast.trans two_pow_lt_overflow)
    exact safeInteger?_eq_some_iff.mpr ⟨hx, hsafe⟩
  · rw [if_neg hsafe]
    have hlarge : 2 ^ 53 ≤ |z| := not_lt.mp (fun hlt => hsafe (natAbs_le_maxSafe_iff.mpr hlt))
    by_contra hsome
    obtain ⟨y, hy⟩ := Option.ne_none_iff_exists'.mp hsome
    obtain ⟨hx, hle⟩ := safeInteger?_eq_some_iff.mp hy
    have hysmall := natAbs_le_maxSafe_iff.mp hle
    rw [hx] at h
    -- rounding keeps the order, so it does not bring a large integer back below `2 ^ 53`
    rcases le_abs.mp hlarge with hpos | hneg
    · have hv : ((2 : ℚ) ^ 53) ≤ z := by exact_mod_cast hpos
      rcases h.ge representable_two_pow hv with hend | hend
      · obtain ⟨q, hq, hge⟩ := hend
        cases hq
        have hge' : (2 : ℤ) ^ 53 ≤ y := by exact_mod_cast hge
        exact absurd (lt_of_le_of_lt (le_abs_self y) hysmall) (not_lt.mpr hge')
      · obtain ⟨negative, hend⟩ := hend
        cases hend
    · have hv : (z : ℚ) ≤ -(2 : ℚ) ^ 53 := by
        have : z ≤ -(2 : ℤ) ^ 53 := by omega
        exact_mod_cast this
      rcases h.le (representable_neg representable_two_pow) hv with hend | hend
      · obtain ⟨q, hq, hle'⟩ := hend
        cases hq
        have hle'' : y ≤ -(2 : ℤ) ^ 53 := by exact_mod_cast hle'
        have := neg_abs_le y
        omega
      · cases hend

/-- Behind the safe integers nothing rounds to one. -/
theorem RoundsTo.not_isSafeInteger {v : ℚ} {x : Double} (h : RoundsTo v x) (hv : 2 ^ 53 ≤ v) :
    x.safeInteger? = none := by
  by_contra hsome
  obtain ⟨y, hy⟩ := Option.ne_none_iff_exists'.mp hsome
  obtain ⟨hx, hle⟩ := safeInteger?_eq_some_iff.mp hy
  have hysmall := natAbs_le_maxSafe_iff.mp hle
  rcases h.ge representable_two_pow hv with hend | hend
  · obtain ⟨q, hq, hge⟩ := hend
    rw [hx] at hq
    cases hq
    have hge' : (2 : ℤ) ^ 53 ≤ y := by exact_mod_cast hge
    exact absurd (lt_of_le_of_lt (le_abs_self y) hysmall) (not_lt.mpr hge')
  · obtain ⟨negative, hend⟩ := hend
    rw [hx] at hend
    cases hend

/-- Nothing from minus one down rounds to a number from zero up. -/
theorem RoundsTo.not_isNonneg {v : ℚ} {x : Double} (h : RoundsTo v x) (hv : v ≤ -1) :
    x.isNonneg = false := by
  have hone : Representable (-1) := by
    have := representable_intCast (z := -1) (by norm_num)
    exact_mod_cast this
  rcases h.le hone hv with hend | hend
  · obtain ⟨q, rfl, hle⟩ := hend
    have hneg : q < 0 := by linarith
    simpa [isNonneg] using hneg
  · have hneg : v < 0 := by linarith
    rw [hend]
    simp [isNonneg, hneg]

end Double
