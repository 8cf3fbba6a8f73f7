import Mathlib.Algebra.Order.Ring.Nat
import Mathlib.Algebra.Ring.Parity
import Mathlib.Data.List.Basic
import Mathlib.Tactic.Linarith
import Mathlib.Tactic.Ring

/-! # Digit strings

    The value of a string of decimal digits, and what of it can be read off the
    characters: that it is zero, that a power of ten divides it, and how long it is
    without its leading zeros. -/

namespace Decimal

/-! ## Section 1: Digits -/

def digit (c : Char) : ℕ := c.toNat - 48

/-- The value of a string of digits. -/
def value (digits : List Char) : ℕ := digits.foldl (fun n c => 10 * n + digit c) 0

/-- Only zeros, or nothing. -/
def allZeros (digits : List Char) : Bool := digits.all (· = '0')

/-- A string of digits. -/
def AllDigits (digits : List Char) : Prop := ∀ c ∈ digits, c.isDigit = true

instance (ds : List Char) : Decidable (AllDigits ds) :=
  decidable_of_iff (ds.all Char.isDigit = true) List.all_eq_true

theorem AllDigits.append {ds es : List Char} (h : AllDigits ds) (h' : AllDigits es) :
    AllDigits (ds ++ es) := by
  intro c hc
  rcases List.mem_append.mp hc with hc | hc
  · exact h c hc
  · exact h' c hc

theorem AllDigits.drop {ds : List Char} (h : AllDigits ds) (k : ℕ) : AllDigits (ds.drop k) :=
  fun c hc => h c (List.mem_of_mem_drop hc)

theorem AllDigits.tail {c : Char} {ds : List Char} (h : AllDigits (c :: ds)) : AllDigits ds :=
  fun d hd => h d (List.mem_cons_of_mem c hd)

theorem bounds_of_isDigit {c : Char} (h : c.isDigit = true) : 48 ≤ c.toNat ∧ c.toNat ≤ 57 := by
  simp only [Char.isDigit, Bool.and_eq_true, decide_eq_true_eq] at h
  exact ⟨h.1, h.2⟩

theorem digit_lt {c : Char} (h : c.isDigit = true) : digit c < 10 := by
  obtain ⟨hlow, hhigh⟩ := bounds_of_isDigit h
  unfold digit
  omega

theorem digit_eq_zero_iff {c : Char} (h : c.isDigit = true) : digit c = 0 ↔ c = '0' := by
  obtain ⟨hlow, hhigh⟩ := bounds_of_isDigit h
  constructor
  · intro hzero
    unfold digit at hzero
    have hnat : c.toNat = '0'.toNat := by
      show c.toNat = 48
      omega
    exact Char.toNat_inj.mp hnat
  · rintro rfl
    rfl

/-! ## Section 2: Values -/

@[simp] theorem value_nil : value [] = 0 := rfl

theorem foldl_digits (digits : List Char) : ∀ n : ℕ,
    digits.foldl (fun n c => 10 * n + digit c) n = n * 10 ^ digits.length + value digits := by
  induction digits with
  | nil => simp
  | cons c digits ih =>
    intro n
    unfold value
    rw [List.foldl_cons, List.foldl_cons, ih, ih (10 * 0 + digit c), List.length_cons]
    ring

theorem value_append (ds es : List Char) : value (ds ++ es) = value ds * 10 ^ es.length + value es := by
  unfold value
  rw [List.foldl_append]
  exact foldl_digits es _

theorem value_cons (c : Char) (ds : List Char) :
    value (c :: ds) = digit c * 10 ^ ds.length + value ds := by
  have happend := value_append [c] ds
  simpa [value] using happend

theorem value_replicate_zero (k : ℕ) : value (List.replicate k '0') = 0 := by
  induction k with
  | zero => rfl
  | succ k ih =>
    rw [List.replicate_succ, value_cons, ih]
    simp [digit]

theorem value_lt {digits : List Char} (h : AllDigits digits) : value digits < 10 ^ digits.length := by
  induction digits with
  | nil => simp
  | cons c digits ih =>
    have hhead := digit_lt (h c List.mem_cons_self)
    have htail := ih h.tail
    rw [value_cons, List.length_cons, pow_succ]
    nlinarith

theorem value_eq_zero_iff {digits : List Char} (h : AllDigits digits) :
    value digits = 0 ↔ allZeros digits = true := by
  induction digits with
  | nil => simp [allZeros]
  | cons c digits ih =>
    have hpow : 0 < 10 ^ digits.length := Nat.pos_of_ne_zero (by simp)
    rw [value_cons, Nat.add_eq_zero_iff, ih h.tail]
    simp only [allZeros, List.all_cons, Bool.and_eq_true, decide_eq_true_eq]
    rw [← digit_eq_zero_iff (h c List.mem_cons_self)]
    refine and_congr_left' ?_
    rw [Nat.mul_eq_zero]
    exact or_iff_left hpow.ne'

/-- The digits before the last `k` and the last `k` of them. -/
theorem value_split {digits : List Char} {k : ℕ} (hk : k ≤ digits.length) :
    value digits = value (digits.take (digits.length - k)) * 10 ^ k +
      value (digits.drop (digits.length - k)) := by
  have happend := value_append (digits.take (digits.length - k)) (digits.drop (digits.length - k))
  rw [List.take_append_drop, List.length_drop, Nat.sub_sub_self hk] at happend
  exact happend

/-- A power of ten divides the value if the last digits are zeros. -/
theorem pow_dvd_value_iff {digits : List Char} (h : AllDigits digits) {k : ℕ}
    (hk : k ≤ digits.length) :
    10 ^ k ∣ value digits ↔ allZeros (digits.drop (digits.length - k)) = true := by
  have hlt := value_lt (h.drop (digits.length - k))
  rw [List.length_drop, Nat.sub_sub_self hk] at hlt
  rw [← value_eq_zero_iff (h.drop _), value_split hk, Nat.dvd_add_right (Nat.dvd_mul_left _ _)]
  constructor
  · exact fun hdvd => Nat.eq_zero_of_dvd_of_lt hdvd hlt
  · intro hzero
    rw [hzero]
    exact Nat.dvd_zero _

/-! ## Section 3: Leading zeros -/

/-- Without the leading zeros. -/
def stripZeros (digits : List Char) : List Char := digits.dropWhile (· = '0')

theorem value_stripZeros (digits : List Char) : value (stripZeros digits) = value digits := by
  unfold stripZeros
  induction digits with
  | nil => rfl
  | cons c digits ih =>
    by_cases hc : c = '0'
    · rw [List.dropWhile_cons_of_pos (by simpa using hc), ih, value_cons, hc]
      simp [digit]
    · rw [List.dropWhile_cons_of_neg (by simpa using hc)]

theorem allDigits_stripZeros {digits : List Char} (h : AllDigits digits) :
    AllDigits (stripZeros digits) :=
  fun c hc => h c ((List.dropWhile_suffix _).subset hc)

/-- How long the digits are without their leading zeros says how large the value is. -/
theorem length_stripZeros_le_iff {digits : List Char} (h : AllDigits digits) (n : ℕ) :
    (stripZeros digits).length ≤ n ↔ value digits < 10 ^ n := by
  constructor
  · intro hle
    have hlt := value_lt (allDigits_stripZeros h)
    rw [value_stripZeros] at hlt
    exact hlt.trans_le (Nat.pow_le_pow_right (by decide) hle)
  · intro hlt
    cases hstrip : stripZeros digits with
    | nil => exact Nat.zero_le _
    | cons c rest =>
      have hc : c ≠ '0' := by
        have hhead := List.head?_dropWhile_not (· = '0') digits
        unfold stripZeros at hstrip
        rw [hstrip] at hhead
        simpa using hhead
      have hdigit : c.isDigit = true := allDigits_stripZeros h c (by rw [hstrip]; exact List.mem_cons_self)
      have hpos : 1 ≤ digit c := Nat.pos_of_ne_zero (fun hz => hc ((digit_eq_zero_iff hdigit).mp hz))
      have hvalue : 10 ^ rest.length ≤ value digits := by
        rw [← value_stripZeros, hstrip, value_cons]
        exact (Nat.le_mul_of_pos_left _ hpos).trans (Nat.le_add_right _ _)
      have hpow : 10 ^ rest.length < 10 ^ n := hvalue.trans_lt hlt
      rw [List.length_cons]
      exact (Nat.pow_lt_pow_iff_right (by decide)).mp hpow

end Decimal
