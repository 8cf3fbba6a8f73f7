import Mathlib.Tactic.FieldSimp
import XChainDecoder.Lib.Decimal
import XChainDecoder.Lib.Double
import XChainDecoder.Lib.Text
import XChainDecoder.Ingest.Rules

/-! # The expiration of a dispenser

    An EXPIRATION arrives as text. `Number` reads it first; what comes out as a safe
    integer is checked once more on the characters, since rounding may have made an
    integer of it. What is too large for that is read exactly, and stored as the largest
    safe integer.

    The two readings of the characters do not accept the same spellings. `Recognized`
    says on which tokens that shows. -/

namespace XChainDecoder.Expiration

open Decimal Double Text

/-! ## Section 1: Reading the characters -/

/-- The groups of a match. -/
structure DecimalMatch where
  int      : List Char
  fraction : List Char
  exponent : Option (List Char)
deriving DecidableEq, Repr

/-- `[+-]?` -/
def dropSign : List Char → List Char
  | '+' :: rest => rest
  | '-' :: rest => rest
  | rest        => rest

/-- `[+-]?\d+`, and no more. -/
def isSignedDigits (value : List Char) : Bool :=
  dropSign value ≠ [] && (dropSign value).all Char.isDigit

/-- `(?:[eE]([+-]?\d+))?$` -/
def matchExponent : List Char → Option (Option (List Char))
  | []        => some none
  | c :: rest => if (c = 'e' ∨ c = 'E') ∧ isSignedDigits rest then some (some rest) else none

/-- `(\d*)(?:[eE]([+-]?\d+))?$` behind a point. -/
def matchFraction (int rest : List Char) : Option DecimalMatch :=
  (matchExponent (rest.dropWhile Char.isDigit)).map (fun exponent =>
    ⟨int, rest.takeWhile Char.isDigit, exponent⟩)

/-- `(\d+)(?:\.(\d*))?(?:[eE]([+-]?\d+))?$` -/
def matchDigits (value : List Char) : Option DecimalMatch :=
  let int := value.takeWhile Char.isDigit
  if int = [] then none
  else
    match value.dropWhile Char.isDigit with
    | '.' :: rest => matchFraction int rest
    | rest        => (matchExponent rest).map (fun exponent => ⟨int, [], exponent⟩)

/-- `^([+-]?)(?:(\d+)(?:\.(\d*))?|\.(\d+))(?:[eE]([+-]?\d+))?$` -/
def matchDecimal (value : List Char) : Option DecimalMatch :=
  match dropSign value with
  | '.' :: rest => if rest.takeWhile Char.isDigit = [] then none else matchFraction [] rest
  | body        => matchDigits body

/-- `^\+?([0-9]+)(?:\.([0-9]*))?(?:e([+-]?[0-9]+))?$`, in either case. -/
def matchUnsigned (value : List Char) : Option DecimalMatch :=
  match value with
  | '+' :: body => matchDigits body
  | body        => matchDigits body

/-- The conversion of a string to a number. -/
abbrev ToNumber : Type := List Char → Double

/-- `isExactIntegerToken`. -/
def isExactIntegerToken (number : ToNumber) (value : List Char) : Bool :=
  match matchDecimal (trim value) with
  | none       => false
  | some found =>
      let digits := found.int ++ found.fraction
      match (found.exponent.elim (.finite 0) number).safeInteger? with
      | none          => false
      | some exponent =>
          let fractionalDigits := (found.fraction.length : ℤ) - exponent
          if fractionalDigits ≤ 0 then true
          else if digits.length ≤ fractionalDigits then allZeros digits
          else allZeros (digits.drop (digits.length - fractionalDigits.toNat))

/-- The digits of an exponent that count. -/
def significant (exponentToken : List Char) : List Char := stripZeros (dropSign exponentToken)

/-- `exactUnsignedDecimal`. An exponent of six digits is a safe integer. -/
def exactUnsignedDecimal (number : ToNumber) (raw : List Char) : Option ℕ :=
  match matchUnsigned (trim raw) with
  | none       => none
  | some found =>
      let exponentToken := found.exponent.getD ['0']
      if 6 < (significant exponentToken).length then none
      else
        match (number exponentToken).safeInteger? with
        | none          => none
        | some exponent =>
            let digits := found.int ++ found.fraction
            let fractionalPlaces := (found.fraction.length : ℤ) - exponent
            if 0 < fractionalPlaces then
              if digits.length ≤ fractionalPlaces then (if allZeros digits then some 0 else none)
              else
                let places := fractionalPlaces.toNat
                if allZeros (digits.drop (digits.length - places)) then
                  some (value (digits.take (digits.length - places)))
                else none
            else
              let zeroCount := (-fractionalPlaces).toNat
              if 0 < zeroCount ∧ allZeros digits = false ∧
                  20 < (stripZeros digits).length + zeroCount then none
              else some (value (digits ++ List.replicate zeroCount '0'))

/-! ## Section 2: Accepting an expiration -/

def U64_MAX : ℕ := 18446744073709551615

/-- The gates of a network, its default, and the engine's conversion. -/
structure ExpirationRules where
  wideActivation       : Option Int
  exactActivation      : Option Int
  getDefaultExpiration : Int → Double
  number               : ToNumber

/-- `normalizeDispenserExpiration` of a string. -/
def normalizeDispenserExpiration (rules : ExpirationRules) (raw : List Char) (blockTime : Int)
    (asNumber : Double) : Option Double :=
  if trim raw = [] then none
  else if asNumber.isSafeInteger ∧ asNumber.isNonneg then some asNumber
  else if gateActive rules.wideActivation blockTime = false then none
  else
    match exactUnsignedDecimal rules.number raw with
    | none       => none
    | some exact =>
        if exact ≤ MAX_SAFE_INTEGER ∨ U64_MAX < exact then none else some (.finite MAX_SAFE_INTEGER)

/-- `hasValidExpirationToken`. -/
def hasValidExpirationToken (rules : ExpirationRules) (expirationToken : Option (List Char))
    (expiration : Option Double) (blockTime : Int) : Bool :=
  match expiration with
  | none            => false
  | some expiration =>
      if expiration.isSafeInteger ∧ expiration.isNonneg then
        match expirationToken with
        | none | some [] => true
        | some token     =>
            gateActive rules.exactActivation blockTime = false ||
              isExactIntegerToken rules.number token
      else false

/-- The expiration of `pushV0DispenserCreate`, none where the create is skipped. -/
def createExpiration (rules : ExpirationRules) (expirationToken : Option (List Char))
    (blockTime : Int) : Option Double :=
  let expiration :=
    match expirationToken with
    | none | some [] => some (rules.getDefaultExpiration blockTime)
    | some token     => normalizeDispenserExpiration rules token blockTime (rules.number token)
  if hasValidExpirationToken rules expirationToken expiration blockTime then expiration else none

/-- The expiration `dispenserEditExtension` extends to. -/
def editExpiration (rules : ExpirationRules) (editExpirationToken : Option (List Char))
    (blockTime : Int) : Option Double :=
  match editExpirationToken with
  | none | some [] => none
  | some token     =>
      let newExpiration := normalizeDispenserExpiration rules token blockTime (rules.number token)
      if hasValidExpirationToken rules (some token) newExpiration blockTime then
        newExpiration.filter (fun expiration =>
          match expiration with
          | .finite q => (blockTime : ℚ) < q
          | _         => false)
      else none

/-! ## Section 3: Tokens -/

inductive Sign where
  | none
  | plus
  | minus
deriving DecidableEq, Repr

def Sign.chars : Sign → List Char
  | .none  => []
  | .plus  => ['+']
  | .minus => ['-']

/-- A token of the decimal grammar. -/
structure Token where
  sign            : Sign
  int             : List Char
  point           : Bool
  fraction        : List Char
  /-- the letter in front of it, its sign and its digits -/
  exponent        : Option (Bool × Sign × List Char)
  int_digits      : AllDigits int
  fraction_digits : AllDigits fraction
  exponent_digits : ∀ e ∈ exponent, AllDigits e.2.2 ∧ e.2.2 ≠ []
  some_digits     : int ++ fraction ≠ []
  fraction_point  : point = false → fraction = []

namespace Token

/-- The exponent as it is written. -/
def exponentToken (t : Token) : Option (List Char) := t.exponent.map (fun e => e.2.1.chars ++ e.2.2)

def chars (t : Token) : List Char :=
  t.sign.chars ++ t.int ++ (if t.point then '.' :: t.fraction else []) ++
    t.exponent.elim [] (fun e => (if e.1 then 'E' else 'e') :: (e.2.1.chars ++ e.2.2))

def digits (t : Token) : List Char := t.int ++ t.fraction

/-- The integer a sign and digits stand for. -/
def signed (sign : Sign) (n : ℕ) : ℤ :=
  match sign with
  | .minus => -n
  | _      => n

def exponentValue (t : Token) : ℤ :=
  t.exponent.elim 0 (fun e => signed e.2.1 (value e.2.2))

/-- What a token stands for. -/
def exactValue (t : Token) : ℚ :=
  signed t.sign (value t.digits) * (10 : ℚ) ^ (t.exponentValue - t.fraction.length)

end Token

/-- The conversion rounds correctly what a token stands for, and its exponent. -/
structure ReadsCorrectly (number : ToNumber) (t : Token) : Prop where
  value    : RoundsTo t.exactValue (number t.chars)
  exponent : RoundsTo t.exponentValue (number (t.exponentToken.getD ['0']))

/-! ## Section 4: Matching a token -/

/-- Digits end here. -/
def StopsDigits (rest : List Char) : Prop := ∀ c ∈ rest.head?, c.isDigit = false

theorem takeWhile_digits {ds rest : List Char} (hds : AllDigits ds) (hrest : StopsDigits rest) :
    (ds ++ rest).takeWhile Char.isDigit = ds := by
  rw [List.takeWhile_append_of_pos hds]
  cases rest with
  | nil => simp
  | cons c rest => rw [List.takeWhile_cons_of_neg (by simp [hrest c rfl]), List.append_nil]

theorem dropWhile_digits {ds rest : List Char} (hds : AllDigits ds) (hrest : StopsDigits rest) :
    (ds ++ rest).dropWhile Char.isDigit = rest := by
  rw [List.dropWhile_append_of_pos hds]
  cases rest with
  | nil => rfl
  | cons c rest => rw [List.dropWhile_cons_of_neg (by simp [hrest c rfl])]

theorem ne_of_isDigit {c d : Char} (h : c.isDigit = true) (hd : d.isDigit = false) : c ≠ d := by
  intro heq
  rw [heq, hd] at h
  cases h

theorem dropSign_of_ne {c : Char} (rest : List Char) (hplus : c ≠ '+') (hminus : c ≠ '-') :
    dropSign (c :: rest) = c :: rest := by
  unfold dropSign
  split
  · next heq => exact absurd (List.cons.inj heq).1 hplus
  · next heq => exact absurd (List.cons.inj heq).1 hminus
  · rfl

theorem dropSign_chars (sign : Sign) {c : Char} (rest : List Char) (hplus : c ≠ '+')
    (hminus : c ≠ '-') : dropSign (sign.chars ++ c :: rest) = c :: rest := by
  cases sign with
  | none => exact dropSign_of_ne rest hplus hminus
  | plus => rfl
  | minus => rfl

theorem dropSign_digits (sign : Sign) {ds : List Char} (hds : AllDigits ds) (hne : ds ≠ []) :
    dropSign (sign.chars ++ ds) = ds := by
  cases ds with
  | nil => exact absurd rfl hne
  | cons c ds =>
    have hdigit := hds c List.mem_cons_self
    exact dropSign_chars sign ds (ne_of_isDigit hdigit (by decide)) (ne_of_isDigit hdigit (by decide))

theorem matchExponent_cons (c : Char) (rest : List Char) : matchExponent (c :: rest) =
    if (c = 'e' ∨ c = 'E') ∧ isSignedDigits rest then some (some rest) else none := rfl

namespace Token

variable (t : Token)

/-- What is written behind the digits of a token. -/
def exponentChars : List Char :=
  t.exponent.elim [] (fun e => (if e.1 then 'E' else 'e') :: (e.2.1.chars ++ e.2.2))

/-- What is written behind its sign. -/
def body : List Char := t.int ++ ((if t.point then '.' :: t.fraction else []) ++ t.exponentChars)

theorem chars_eq : t.chars = t.sign.chars ++ t.body := by
  unfold chars body exponentChars
  simp only [List.append_assoc]

theorem stopsDigits_exponentChars : StopsDigits t.exponentChars := by
  unfold exponentChars
  cases t.exponent with
  | none => exact nofun
  | some e =>
    intro c hc
    simp only [Option.elim, List.head?_cons, Option.mem_some_iff] at hc
    rw [← hc]
    by_cases hupper : e.1 = true
    · rw [if_pos hupper]
      decide
    · rw [if_neg hupper]
      decide

theorem exponentDigits {e : Bool × Sign × List Char} (h : t.exponent = some e) :
    dropSign (e.2.1.chars ++ e.2.2) = e.2.2 := by
  obtain ⟨hdigits, hne⟩ := t.exponent_digits e h
  exact dropSign_digits e.2.1 hdigits hne

theorem matchExponent_exponentChars : matchExponent t.exponentChars = some t.exponentToken := by
  unfold exponentChars exponentToken
  cases hexponent : t.exponent with
  | none => rfl
  | some e =>
    obtain ⟨hdigits, hne⟩ := t.exponent_digits e hexponent
    have hsigned : isSignedDigits (e.2.1.chars ++ e.2.2) = true := by
      unfold isSignedDigits
      rw [t.exponentDigits hexponent]
      simp only [Bool.and_eq_true, decide_eq_true_eq, List.all_eq_true]
      exact ⟨hne, hdigits⟩
    show matchExponent ((if e.1 then 'E' else 'e') :: (e.2.1.chars ++ e.2.2)) = _
    have hletter : (if e.1 then 'E' else 'e') = 'e' ∨ (if e.1 then 'E' else 'e') = 'E' := by
      by_cases hupper : e.1 = true
      · exact .inr (if_pos hupper)
      · exact .inl (if_neg hupper)
    rw [matchExponent_cons, if_pos ⟨hletter, hsigned⟩]
    rfl

theorem matchFraction_fraction (int : List Char) :
    matchFraction int (t.fraction ++ t.exponentChars) =
      some ⟨int, t.fraction, t.exponentToken⟩ := by
  unfold matchFraction
  rw [takeWhile_digits t.fraction_digits t.stopsDigits_exponentChars,
    dropWhile_digits t.fraction_digits t.stopsDigits_exponentChars, matchExponent_exponentChars]
  rfl

/-- The groups of a token. -/
def groups : DecimalMatch := ⟨t.int, t.fraction, t.exponentToken⟩

theorem stopsDigits_rest :
    StopsDigits ((if t.point then '.' :: t.fraction else []) ++ t.exponentChars) := by
  by_cases hpoint : t.point = true
  · rw [if_pos hpoint]
    intro c hc
    simp only [List.cons_append, List.head?_cons, Option.mem_some_iff] at hc
    rw [← hc]
    decide
  · rw [if_neg hpoint, List.nil_append]
    exact t.stopsDigits_exponentChars

theorem matchDigits_body (hint : t.int ≠ []) : matchDigits t.body = some t.groups := by
  unfold matchDigits body
  rw [takeWhile_digits t.int_digits t.stopsDigits_rest,
    dropWhile_digits t.int_digits t.stopsDigits_rest]
  simp only [if_neg hint]
  by_cases hpoint : t.point = true
  · rw [if_pos hpoint]
    exact t.matchFraction_fraction t.int
  · have hnil := t.fraction_point (by simpa using hpoint)
    rw [if_neg hpoint, List.nil_append]
    have hnot : ∀ rest, t.exponentChars ≠ '.' :: rest := by
      intro rest heq
      have hmatch := t.matchExponent_exponentChars
      rw [heq] at hmatch
      rw [matchExponent_cons, if_neg (fun h => absurd h.1 (by decide))] at hmatch
      cases hmatch
    split
    · next heq => exact absurd heq (hnot _)
    · rw [matchExponent_exponentChars, groups, hnil]
      rfl

theorem matchDigits_of_int_nil (hint : t.int = []) : matchDigits t.body = none := by
  unfold matchDigits body
  rw [takeWhile_digits t.int_digits t.stopsDigits_rest]
  simp only [hint, if_true]

theorem body_of_int_nil (hint : t.int = []) :
    t.body = '.' :: (t.fraction ++ t.exponentChars) ∧ t.fraction ≠ [] := by
  have hne := t.some_digits
  rw [hint, List.nil_append] at hne
  have hpoint : t.point = true := by
    by_contra hpoint
    exact hne (t.fraction_point (by simpa using hpoint))
  refine ⟨?_, hne⟩
  unfold body
  rw [hint, if_pos hpoint]
  rfl

/-- The first character behind the sign is a digit or a point. -/
theorem exists_body : ∃ c rest, t.body = c :: rest ∧ c ≠ '+' ∧ c ≠ '-' ∧
    (t.int ≠ [] → c ≠ '.') := by
  by_cases hint : t.int = []
  · obtain ⟨hbody, -⟩ := t.body_of_int_nil hint
    exact ⟨'.', _, hbody, by decide, by decide, fun h => absurd hint h⟩
  · obtain ⟨c, rest, hcons⟩ := List.exists_cons_of_ne_nil hint
    have hdigit : c.isDigit = true := t.int_digits c (by rw [hcons]; exact List.mem_cons_self)
    refine ⟨c, _, by unfold body; rw [hcons]; rfl, ?_, ?_, fun _ => ?_⟩
    · exact ne_of_isDigit hdigit (by decide)
    · exact ne_of_isDigit hdigit (by decide)
    · exact ne_of_isDigit hdigit (by decide)

/-- A token is matched by the first reading. -/
theorem matchDecimal_chars : matchDecimal t.chars = some t.groups := by
  obtain ⟨c, rest, hbody, hplus, hminus, hdot⟩ := t.exists_body
  have hdrop : dropSign t.chars = t.body := by
    rw [chars_eq, hbody]
    exact dropSign_chars t.sign rest hplus hminus
  unfold matchDecimal
  rw [hdrop]
  by_cases hint : t.int = []
  · obtain ⟨hpoint, hne⟩ := t.body_of_int_nil hint
    rw [hpoint]
    simp only [takeWhile_digits t.fraction_digits t.stopsDigits_exponentChars, if_neg hne]
    rw [matchFraction_fraction, groups, hint]
  · rw [← t.matchDigits_body hint]
    split
    · next heq =>
      rw [hbody] at heq
      exact absurd (List.cons.inj heq).1 (hdot hint)
    · rfl

/-- The second reading takes no minus, and no point without a digit before it. -/
theorem matchUnsigned_chars :
    matchUnsigned t.chars = if t.sign ≠ .minus ∧ t.int ≠ [] then some t.groups else none := by
  obtain ⟨c, rest, hbody, hplus, hminus, -⟩ := t.exists_body
  have hdigits : matchDigits t.body = if t.int ≠ [] then some t.groups else none := by
    by_cases hint : t.int = []
    · rw [if_neg (not_not.mpr hint)]
      exact t.matchDigits_of_int_nil hint
    · rw [if_pos hint]
      exact t.matchDigits_body hint
  rw [chars_eq]
  cases hsign : t.sign with
  | plus =>
    simp only [ne_eq, reduceCtorEq, not_false_eq_true, true_and]
    exact hdigits
  | none =>
    simp only [ne_eq, reduceCtorEq, not_false_eq_true, true_and]
    refine Eq.trans ?_ hdigits
    show matchUnsigned t.body = _
    unfold matchUnsigned
    split
    · next heq =>
      rw [hbody] at heq
      exact absurd (List.cons.inj heq).1 hplus
    · rfl
  | minus =>
    simp only [ne_eq, not_true_eq_false, false_and, if_false]
    show matchDigits ('-' :: t.body) = none
    unfold matchDigits
    rw [List.takeWhile_cons_of_neg (by decide)]
    rfl

theorem isWhitespace_of_isDigit {c : Char} (h : c.isDigit = true) : isWhitespace c = false := by
  obtain ⟨hlow, hhigh⟩ := bounds_of_isDigit h
  simp only [isWhitespace, List.mem_cons, List.not_mem_nil, or_false, decide_eq_false_iff_not]
  omega

theorem isWhitespace_sign (sign : Sign) : ∀ c ∈ sign.chars, isWhitespace c = false := by
  intro c hc
  cases sign with
  | none => nomatch hc
  | plus => rw [List.mem_singleton.mp hc]; decide
  | minus => rw [List.mem_singleton.mp hc]; decide

theorem isWhitespace_chars : ∀ c ∈ t.chars, isWhitespace c = false := by
  intro c hc
  unfold chars at hc
  rcases List.mem_append.mp hc with hc | hc
  · rcases List.mem_append.mp hc with hc | hc
    · rcases List.mem_append.mp hc with hc | hc
      · exact isWhitespace_sign _ c hc
      · exact isWhitespace_of_isDigit (t.int_digits c hc)
    · by_cases hpoint : t.point = true
      · rw [if_pos hpoint] at hc
        rcases List.mem_cons.mp hc with rfl | hc
        · decide
        · exact isWhitespace_of_isDigit (t.fraction_digits c hc)
      · rw [if_neg hpoint] at hc
        cases hc
  · cases hexponent : t.exponent with
    | none =>
      rw [hexponent] at hc
      cases hc
    | some e =>
      rw [hexponent] at hc
      rcases List.mem_cons.mp hc with rfl | hc
      · by_cases hupper : e.1 = true
        · rw [if_pos hupper]
          decide
        · rw [if_neg hupper]
          decide
      · rcases List.mem_append.mp hc with hc | hc
        · exact isWhitespace_sign _ c hc
        · exact isWhitespace_of_isDigit ((t.exponent_digits e hexponent).1 c hc)

theorem dropWhile_isWhitespace {value : List Char} (h : ∀ c ∈ value, isWhitespace c = false) :
    value.dropWhile isWhitespace = value := by
  cases value with
  | nil => rfl
  | cons c value => exact List.dropWhile_cons_of_neg (by simp [h c List.mem_cons_self])

theorem trim_chars : trim t.chars = t.chars := by
  unfold trim
  rw [dropWhile_isWhitespace t.isWhitespace_chars, dropWhile_isWhitespace, List.reverse_reverse]
  intro c hc
  exact t.isWhitespace_chars c (List.mem_reverse.mp hc)

theorem chars_ne_nil : t.chars ≠ [] := by
  obtain ⟨c, rest, hbody, -⟩ := t.exists_body
  rw [chars_eq, hbody]
  simp

end Token

/-! ## Section 5: Exact values -/

theorem exists_int_iff (a k : ℤ) :
    (∃ z : ℤ, (a : ℚ) * 10 ^ k = z) ↔ 0 ≤ k ∨ (10 : ℤ) ^ (-k).toNat ∣ a := by
  rcases le_or_gt 0 k with hk | hk
  · obtain ⟨n, rfl⟩ := Int.eq_ofNat_of_zero_le hk
    refine iff_of_true ⟨a * 10 ^ n, ?_⟩ (.inl hk)
    push_cast
    rfl
  · obtain ⟨n, hn⟩ := Int.eq_ofNat_of_zero_le (show 0 ≤ -k by omega)
    have hpow : (10 : ℚ) ^ k = ((10 : ℚ) ^ n)⁻¹ := by
      rw [show k = -(n : ℤ) by omega, zpow_neg, zpow_natCast]
    have hne : (10 : ℚ) ^ n ≠ 0 := pow_ne_zero _ (by norm_num)
    rw [hpow, hn, Int.toNat_natCast, or_iff_right (not_le.mpr hk)]
    constructor
    · intro h
      obtain ⟨z, hz⟩ := h
      refine ⟨z, ?_⟩
      have hz' : (a : ℚ) = 10 ^ n * z := by
        rw [← hz]
        field_simp
      exact_mod_cast hz'
    · intro h
      obtain ⟨z, hz⟩ := h
      refine ⟨z, ?_⟩
      rw [hz]
      push_cast
      field_simp

namespace Token

variable {t : Token}

theorem allDigits_digits (t : Token) : AllDigits t.digits := t.int_digits.append t.fraction_digits

theorem signed_dvd_iff (sign : Sign) (k n : ℕ) : ((10 : ℤ) ^ k ∣ signed sign n) ↔ 10 ^ k ∣ n := by
  have hcast : ((10 : ℤ) ^ k) = ((10 ^ k : ℕ) : ℤ) := by push_cast; rfl
  rw [hcast]
  cases sign with
  | none => exact Int.natCast_dvd_natCast
  | plus => exact Int.natCast_dvd_natCast
  | minus => exact (dvd_neg).trans Int.natCast_dvd_natCast

/-- Whether a token stands for an integer. -/
theorem exists_int_exactValue_iff (t : Token) : (∃ z : ℤ, t.exactValue = z) ↔
    (t.fraction.length : ℤ) - t.exponentValue ≤ 0 ∨
      10 ^ ((t.fraction.length : ℤ) - t.exponentValue).toNat ∣ value t.digits := by
  unfold exactValue
  rw [exists_int_iff, signed_dvd_iff, neg_sub]
  exact or_congr (by omega) Iff.rfl

/-- What is checked on the last digits says whether they are an integer. -/
theorem dvd_value_iff (t : Token) (places : ℕ) : 10 ^ places ∣ value t.digits ↔
    (if t.digits.length ≤ places then allZeros t.digits
      else allZeros (t.digits.drop (t.digits.length - places))) = true := by
  have hall := t.allDigits_digits
  by_cases hle : t.digits.length ≤ places
  · rw [if_pos hle, ← value_eq_zero_iff hall]
    have hlt := (value_lt hall).trans_le (Nat.pow_le_pow_right (by decide) hle)
    constructor
    · exact fun hdvd => Nat.eq_zero_of_dvd_of_lt hdvd hlt
    · intro hzero
      rw [hzero]
      exact Nat.dvd_zero _
  · rw [if_neg hle]
    exact pow_dvd_value_iff hall (by omega)

/-- The exponent as the first reading converts it. -/
theorem safeInteger?_exponent {number : ToNumber} (h : ReadsCorrectly number t) :
    (t.exponentToken.elim (.finite 0) number).safeInteger? =
      if t.exponentValue.natAbs ≤ MAX_SAFE_INTEGER then some t.exponentValue else none := by
  cases hexponent : t.exponent with
  | none =>
    have htoken : t.exponentToken = none := by
      unfold exponentToken
      rw [hexponent]
      rfl
    have hvalue : t.exponentValue = 0 := by
      unfold exponentValue
      rw [hexponent]
      rfl
    rw [htoken, hvalue]
    rfl
  | some e =>
    have htoken : ∃ chars, t.exponentToken = some chars := by
      unfold exponentToken
      rw [hexponent]
      exact ⟨_, rfl⟩
    obtain ⟨chars, hchars⟩ := htoken
    have hround := h.exponent.safeInteger?
    rw [hchars] at hround ⊢
    exact hround

/-- **The first reading** takes the tokens that stand for an integer, if their exponent is
    a safe one. -/
theorem isExactIntegerToken_iff {number : ToNumber} (h : ReadsCorrectly number t) :
    isExactIntegerToken number t.chars = true ↔
      t.exponentValue.natAbs ≤ MAX_SAFE_INTEGER ∧ ∃ z : ℤ, t.exactValue = z := by
  unfold isExactIntegerToken
  rw [trim_chars, matchDecimal_chars, groups]
  simp only [safeInteger?_exponent h]
  by_cases hsafe : t.exponentValue.natAbs ≤ MAX_SAFE_INTEGER
  · simp only [if_pos hsafe]
    rw [exists_int_exactValue_iff, and_iff_right hsafe]
    by_cases hwhole : (t.fraction.length : ℤ) - t.exponentValue ≤ 0
    · rw [if_pos hwhole]
      exact iff_of_true rfl (.inl hwhole)
    · rw [if_neg hwhole, or_iff_right hwhole, dvd_value_iff]
      generalize hplaces : ((t.fraction.length : ℤ) - t.exponentValue).toNat = places
      have hcast : (t.fraction.length : ℤ) - t.exponentValue = places := by omega
      rw [hcast]
      simp only [Nat.cast_le]
      rfl
  · simp only [if_neg hsafe]
    exact iff_of_false Bool.false_ne_true (fun h => hsafe h.1)

/-! ## Section 6: The exact reading -/

/-- The digits of the exponent that count. -/
def exponentDigitsCounted (t : Token) : ℕ := (significant (t.exponentToken.getD ['0'])).length

theorem natAbs_signed (sign : Sign) (n : ℕ) : (signed sign n).natAbs = n := by
  cases sign with
  | none => rfl
  | plus => rfl
  | minus => simp [signed]

/-- An exponent of six digits is safe. -/
theorem exponent_safe_of_counted (h : t.exponentDigitsCounted ≤ 6) :
    t.exponentValue.natAbs ≤ MAX_SAFE_INTEGER := by
  unfold exponentValue
  unfold exponentDigitsCounted exponentToken significant at h
  cases hexponent : t.exponent with
  | none => exact Nat.zero_le _
  | some e =>
    rw [hexponent] at h
    simp only [Option.map_some, Option.getD_some, t.exponentDigits hexponent] at h
    rw [length_stripZeros_le_iff (t.exponent_digits e hexponent).1] at h
    show (signed e.2.1 (value e.2.2)).natAbs ≤ MAX_SAFE_INTEGER
    rw [natAbs_signed]
    exact h.le.trans (by decide)

/-- What the exact reading makes of the digits. -/
def exactDigits (t : Token) : Option ℕ :=
  let fractionalPlaces := (t.fraction.length : ℤ) - t.exponentValue
  if 0 < fractionalPlaces then
    if t.digits.length ≤ fractionalPlaces then (if allZeros t.digits then some 0 else none)
    else
      let places := fractionalPlaces.toNat
      if allZeros (t.digits.drop (t.digits.length - places)) then
        some (value (t.digits.take (t.digits.length - places)))
      else none
  else
    let zeroCount := (-fractionalPlaces).toNat
    if 0 < zeroCount ∧ allZeros t.digits = false ∧ 20 < (stripZeros t.digits).length + zeroCount then
      none
    else some (value (t.digits ++ List.replicate zeroCount '0'))

theorem exactUnsignedDecimal_chars {number : ToNumber} (h : ReadsCorrectly number t) :
    exactUnsignedDecimal number t.chars =
      if t.sign ≠ .minus ∧ t.int ≠ [] ∧ t.exponentDigitsCounted ≤ 6 then t.exactDigits else none := by
  unfold exactUnsignedDecimal
  rw [trim_chars, matchUnsigned_chars]
  by_cases hform : t.sign ≠ .minus ∧ t.int ≠ []
  · rw [if_pos hform]
    by_cases hcounted : (significant (t.exponentToken.getD ['0'])).length ≤ 6
    · have hnot : ¬ 6 < (significant (t.exponentToken.getD ['0'])).length := not_lt.mpr hcounted
      simp only [groups, hnot, if_false, h.exponent.safeInteger?, exponent_safe_of_counted hcounted,
        if_true]
      rw [if_pos ⟨hform.1, hform.2, hcounted⟩]
      rfl
    · have hlong : 6 < (significant (t.exponentToken.getD ['0'])).length := not_le.mp hcounted
      simp only [groups, hlong, if_true]
      rw [if_neg (fun h => hcounted h.2.2)]
  · rw [if_neg hform, if_neg (fun h => hform ⟨h.1, h.2.1⟩)]

theorem exactValue_of_unsigned (hsign : t.sign ≠ .minus) :
    t.exactValue = (value t.digits : ℚ) * 10 ^ (t.exponentValue - t.fraction.length) := by
  have hsigned : signed t.sign (value t.digits) = (value t.digits : ℤ) := by
    cases hcase : t.sign with
    | none => rfl
    | plus => rfl
    | minus => exact absurd hcase hsign
  unfold exactValue
  rw [hsigned]
  rfl

/-- What the exact reading finds is what the token stands for. -/
theorem exactValue_of_exactDigits (hsign : t.sign ≠ .minus) {n : ℕ} (h : t.exactDigits = some n) :
    t.exactValue = n := by
  rw [exactValue_of_unsigned hsign]
  unfold exactDigits at h
  simp only at h
  by_cases hfraction : 0 < (t.fraction.length : ℤ) - t.exponentValue
  · rw [if_pos hfraction] at h
    by_cases hshort : (t.digits.length : ℤ) ≤ (t.fraction.length : ℤ) - t.exponentValue
    · rw [if_pos hshort] at h
      split_ifs at h with hzeros
      cases h
      rw [(value_eq_zero_iff t.allDigits_digits).mpr hzeros]
      simp
    · rw [if_neg hshort] at h
      split_ifs at h with hzeros
      cases h
      generalize hplaces : ((t.fraction.length : ℤ) - t.exponentValue).toNat = places at hzeros ⊢
      have hle : places ≤ t.digits.length := by omega
      have hexp : t.exponentValue - t.fraction.length = -(places : ℤ) := by omega
      have hdrop := (value_eq_zero_iff (t.allDigits_digits.drop _)).mpr hzeros
      have hsplit := value_split hle
      rw [hdrop, Nat.add_zero] at hsplit
      rw [hexp, hsplit, zpow_neg, zpow_natCast]
      push_cast
      field_simp
  · rw [if_neg hfraction] at h
    split_ifs at h with hlong
    cases h
    generalize hzeros : (-((t.fraction.length : ℤ) - t.exponentValue)).toNat = zeros
    have hexp : t.exponentValue - t.fraction.length = (zeros : ℤ) := by omega
    rw [hexp, value_append, value_replicate_zero, List.length_replicate, zpow_natCast]
    push_cast
    ring

/-- A number of at most twenty digits is found. -/
theorem exactDigits_of_exactValue (hsign : t.sign ≠ .minus) {n : ℕ} (hvalue : t.exactValue = n)
    (hsmall : n < 10 ^ 20) : t.exactDigits = some n := by
  have hint := (exists_int_exactValue_iff t).mp ⟨n, by exact_mod_cast hvalue⟩
  suffices hsome : ∃ m, t.exactDigits = some m by
    obtain ⟨m, hm⟩ := hsome
    have heq := exactValue_of_exactDigits hsign hm
    rw [hvalue] at heq
    rw [hm, Nat.cast_inj.mp heq]
  rw [exactValue_of_unsigned hsign] at hvalue
  unfold exactDigits
  simp only
  by_cases hfraction : 0 < (t.fraction.length : ℤ) - t.exponentValue
  · rw [if_pos hfraction]
    have hdvd := hint.resolve_left (not_le.mpr hfraction)
    rw [dvd_value_iff] at hdvd
    generalize hplaces : ((t.fraction.length : ℤ) - t.exponentValue).toNat = places at hdvd ⊢
    have hcast : (t.fraction.length : ℤ) - t.exponentValue = places := by omega
    rw [hcast]
    simp only [Nat.cast_le]
    by_cases hshort : t.digits.length ≤ places
    · rw [if_pos hshort] at hdvd ⊢
      rw [if_pos hdvd]
      exact ⟨0, rfl⟩
    · rw [if_neg hshort] at hdvd ⊢
      rw [if_pos hdvd]
      exact ⟨_, rfl⟩
  · rw [if_neg hfraction]
    generalize hzeros : (-((t.fraction.length : ℤ) - t.exponentValue)).toNat = zeros
    have hexp : t.exponentValue - t.fraction.length = (zeros : ℤ) := by omega
    rw [hexp, zpow_natCast] at hvalue
    have hproduct : value t.digits * 10 ^ zeros = n := by exact_mod_cast hvalue
    rw [if_neg]
    · exact ⟨_, rfl⟩
    · intro hlong
      obtain ⟨-, hnonzero, hlength⟩ := hlong
      -- twenty digits and more are no number below ten to the twenty
      have hpositive : 0 < value t.digits := by
        refine Nat.pos_of_ne_zero (fun hzero => ?_)
        rw [(value_eq_zero_iff t.allDigits_digits).mp hzero] at hnonzero
        cases hnonzero
      have hzerosLt : zeros < 20 := by
        have hle : 10 ^ zeros ≤ n := by
          rw [← hproduct]
          exact Nat.le_mul_of_pos_left _ hpositive
        exact (Nat.pow_lt_pow_iff_right (by decide)).mp (hle.trans_lt hsmall)
      have hfew : value t.digits < 10 ^ (20 - zeros) := by
        have hsplit : 10 ^ 20 = 10 ^ (20 - zeros) * 10 ^ zeros := by
          rw [← pow_add, Nat.sub_add_cancel hzerosLt.le]
        rw [← hproduct, hsplit] at hsmall
        exact lt_of_mul_lt_mul_right hsmall (Nat.zero_le _)
      have hlength' := (length_stripZeros_le_iff t.allDigits_digits _).mpr hfew
      omega

/-! ## Section 7: What is accepted -/

/-- The spellings of an unsigned integer of 64 bits that are recognized. Its exponent is a
    safe integer; one too large to be safe itself has a digit before the point, and an
    exponent of at most six digits. -/
def Recognized (t : Token) : Prop :=
  ∀ n : ℕ, t.exactValue = n → n ≤ U64_MAX → t.exponentValue.natAbs ≤ MAX_SAFE_INTEGER ∧
    (MAX_SAFE_INTEGER < n → t.int ≠ [] ∧ t.exponentDigitsCounted ≤ 6)

/-- A token that stands for no natural number stands for no integer, or for one from
    minus one down. -/
theorem le_neg_one_of_int {z : ℤ} (hz : t.exactValue = z) (hnot : ∀ n : ℕ, t.exactValue ≠ n) :
    t.exactValue ≤ -1 := by
  have hneg : z < 0 := by
    by_contra hge
    obtain ⟨n, rfl⟩ := Int.eq_ofNat_of_zero_le (not_lt.mp hge)
    exact hnot n (by rw [hz]; rfl)
  rw [hz]
  have : z ≤ -1 := by omega
  exact_mod_cast this

theorem sign_of_nonneg_large {n : ℕ} (hvalue : t.exactValue = n) (hpos : 0 < n) : t.sign ≠ .minus := by
  intro hsign
  have hle : t.exactValue ≤ 0 := by
    unfold exactValue
    rw [hsign]
    refine mul_nonpos_of_nonpos_of_nonneg ?_ (zpow_nonneg (by norm_num) _)
    show ((-(value t.digits : ℤ) : ℤ) : ℚ) ≤ 0
    push_cast
    exact neg_nonpos.mpr (Nat.cast_nonneg _)
  rw [hvalue] at hle
  have : (0 : ℚ) < n := by exact_mod_cast hpos
  linarith

end Token

/-- What the create and the edit do with a token that is there: normalize it and check it. -/
def checkedExpiration (rules : ExpirationRules) (token : List Char) (blockTime : Int) :
    Option Double :=
  let expiration := normalizeDispenserExpiration rules token blockTime (rules.number token)
  if hasValidExpirationToken rules (some token) expiration blockTime then expiration else none

section Outcome

variable {rules : ExpirationRules} {blockTime : Int} {t : Token}

theorem checkedExpiration_eq {token : List Char} {expiration : Option Double}
    (h : normalizeDispenserExpiration rules token blockTime (rules.number token) = expiration) :
    checkedExpiration rules token blockTime =
      if hasValidExpirationToken rules (some token) expiration blockTime then expiration else none := by
  rw [← h]
  rfl

theorem createExpiration_chars (rules : ExpirationRules) (blockTime : Int) (t : Token) :
    createExpiration rules (some t.chars) blockTime = checkedExpiration rules t.chars blockTime := by
  have hne := t.chars_ne_nil
  unfold createExpiration checkedExpiration
  generalize t.chars = chars at hne
  cases chars with
  | nil => exact absurd rfl hne
  | cons c chars => rfl

/-- An edit extends to what a create accepts, if it is still to come. -/
theorem editExpiration_chars (rules : ExpirationRules) (blockTime : Int) (t : Token) (q : ℚ) :
    editExpiration rules (some t.chars) blockTime = some (.finite q) ↔
      createExpiration rules (some t.chars) blockTime = some (.finite q) ∧ (blockTime : ℚ) < q := by
  rw [createExpiration_chars]
  have hne := t.chars_ne_nil
  unfold editExpiration checkedExpiration
  generalize t.chars = chars at hne
  cases chars with
  | nil => exact absurd rfl hne
  | cons c chars =>
    simp only
    split_ifs with hvalid
    · rw [Option.filter_eq_some_iff]
      refine and_congr_right' ?_
      simp
    · simp

theorem normalize_of_safe {n : ℕ} (hread : rules.number t.chars = .finite n)
    (hsafe : n ≤ MAX_SAFE_INTEGER) : normalizeDispenserExpiration rules t.chars blockTime
      (rules.number t.chars) = some (.finite n) := by
  unfold normalizeDispenserExpiration
  have hint : (Double.finite n).safeInteger? = some n :=
    safeInteger?_eq_some_iff.mpr ⟨rfl, by simpa using hsafe⟩
  have hnonneg : (Double.finite n).isNonneg = true := by simp [isNonneg]
  rw [t.trim_chars, if_neg t.chars_ne_nil, hread,
    if_pos ⟨by unfold isSafeInteger; rw [hint]; rfl, hnonneg⟩]

theorem normalize_of_not_safe (hwide : gateActive rules.wideActivation blockTime = true)
    (hread : ¬ ((rules.number t.chars).isSafeInteger = true ∧ (rules.number t.chars).isNonneg = true)) :
    normalizeDispenserExpiration rules t.chars blockTime (rules.number t.chars) =
      match exactUnsignedDecimal rules.number t.chars with
      | none       => none
      | some exact =>
          if exact ≤ MAX_SAFE_INTEGER ∨ U64_MAX < exact then none
          else some (.finite MAX_SAFE_INTEGER) := by
  unfold normalizeDispenserExpiration
  rw [t.trim_chars, if_neg t.chars_ne_nil, if_neg hread, if_neg (by simp [hwide])]

/-- What is safe and not negative is valid if the first reading takes the token. -/
theorem hasValidExpirationToken_chars (hexact : gateActive rules.exactActivation blockTime = true)
    {n : ℕ} (hsafe : n ≤ MAX_SAFE_INTEGER) :
    hasValidExpirationToken rules (some t.chars) (some (.finite n)) blockTime =
      isExactIntegerToken rules.number t.chars := by
  have hint : (Double.finite n).safeInteger? = some n :=
    safeInteger?_eq_some_iff.mpr ⟨rfl, by simpa using hsafe⟩
  have hnonneg : (Double.finite n).isNonneg = true := by simp [isNonneg]
  unfold hasValidExpirationToken
  simp only
  rw [if_pos ⟨by unfold isSafeInteger; rw [hint]; rfl, hnonneg⟩]
  have hne := t.chars_ne_nil
  split
  · next heq => cases heq
  · next heq => exact absurd (Option.some.inj heq) hne
  · next token heq =>
    rw [← Option.some.inj heq, hexact]
    rfl

/-- A natural number below the bound of the safe integers is stored as it is. -/
theorem checked_of_safe (hexact : gateActive rules.exactActivation blockTime = true)
    (hreads : ReadsCorrectly rules.number t) {n : ℕ} (hvalue : t.exactValue = n)
    (hsafe : n ≤ MAX_SAFE_INTEGER) : checkedExpiration rules t.chars blockTime =
      if t.exponentValue.natAbs ≤ MAX_SAFE_INTEGER then some (.finite n) else none := by
  have hround : RoundsTo ((n : ℤ) : ℚ) (rules.number t.chars) := by
    have hcast : ((n : ℤ) : ℚ) = t.exactValue := by rw [hvalue]; rfl
    rw [hcast]
    exact hreads.value
  have hread : rules.number t.chars = .finite n := by
    have hint := hround.safeInteger?
    rw [if_pos (by simpa using hsafe)] at hint
    exact_mod_cast (safeInteger?_eq_some_iff.mp hint).1
  have hone : isExactIntegerToken rules.number t.chars = true ↔
      t.exponentValue.natAbs ≤ MAX_SAFE_INTEGER := by
    rw [Token.isExactIntegerToken_iff hreads]
    exact and_iff_left ⟨n, by rw [hvalue]; rfl⟩
  rw [checkedExpiration_eq (normalize_of_safe hread hsafe), hasValidExpirationToken_chars hexact hsafe]
  simp only [hone]

/-- A larger one is stored as the largest safe integer, if both readings take it and it
    has 64 bits. -/
theorem checked_of_large (hwide : gateActive rules.wideActivation blockTime = true)
    (hexact : gateActive rules.exactActivation blockTime = true)
    (hreads : ReadsCorrectly rules.number t) {n : ℕ} (hvalue : t.exactValue = n)
    (hlarge : MAX_SAFE_INTEGER < n) : checkedExpiration rules t.chars blockTime =
      if n ≤ U64_MAX ∧ t.int ≠ [] ∧ t.exponentDigitsCounted ≤ 6 then
        some (.finite MAX_SAFE_INTEGER) else none := by
  have hpos : 0 < n := by omega
  have hsign := Token.sign_of_nonneg_large hvalue hpos
  have hfar : (2 : ℚ) ^ 53 ≤ t.exactValue := by
    rw [hvalue]
    have : 2 ^ 53 ≤ n := by
      unfold MAX_SAFE_INTEGER at hlarge
      omega
    exact_mod_cast this
  -- the double is past the safe integers, so the digits of the token decide
  have hread : ¬ ((rules.number t.chars).isSafeInteger = true ∧
      (rules.number t.chars).isNonneg = true) := by
    intro h
    have hsafe := h.1
    unfold isSafeInteger at hsafe
    rw [hreads.value.not_isSafeInteger hfar] at hsafe
    cases hsafe
  have hnormal : normalizeDispenserExpiration rules t.chars blockTime (rules.number t.chars) =
      if n ≤ U64_MAX ∧ t.int ≠ [] ∧ t.exponentDigitsCounted ≤ 6 then
        some (.finite MAX_SAFE_INTEGER) else none := by
    rw [normalize_of_not_safe hwide hread, Token.exactUnsignedDecimal_chars hreads]
    by_cases hform : t.int ≠ [] ∧ t.exponentDigitsCounted ≤ 6
    · rw [if_pos (show t.sign ≠ .minus ∧ _ from ⟨hsign, hform.1, hform.2⟩)]
      by_cases hbits : n ≤ U64_MAX
      · have hdigits := Token.exactDigits_of_exactValue hsign hvalue
          (show n < 10 ^ 20 by unfold U64_MAX at hbits; omega)
        have hnot : ¬ (n ≤ MAX_SAFE_INTEGER ∨ U64_MAX < n) := by omega
        simp only [hdigits, hnot, if_false, hbits, hform, and_self, ne_eq,
          not_false_eq_true, if_true]
      · rw [if_neg (show ¬ (n ≤ U64_MAX ∧ _) from fun h => hbits h.1)]
        -- too large for 64 bits, whether or not there are digits to read
        cases hdigits : t.exactDigits with
        | none => rfl
        | some m =>
          have heq := Token.exactValue_of_exactDigits hsign hdigits
          rw [hvalue] at heq
          have hm : m = n := (Nat.cast_inj.mp heq).symm
          exact if_pos (show m ≤ MAX_SAFE_INTEGER ∨ U64_MAX < m by omega)
    · rw [if_neg (show ¬ (t.sign ≠ .minus ∧ _) from fun h => hform h.2),
        if_neg (show ¬ (n ≤ U64_MAX ∧ _) from fun h => hform h.2)]
  rw [checkedExpiration_eq hnormal]
  by_cases hform : n ≤ U64_MAX ∧ t.int ≠ [] ∧ t.exponentDigitsCounted ≤ 6
  · have hone : isExactIntegerToken rules.number t.chars = true :=
      (Token.isExactIntegerToken_iff hreads).mpr
        ⟨Token.exponent_safe_of_counted hform.2.2, n, by rw [hvalue]; rfl⟩
    simp only [if_pos hform]
    rw [hasValidExpirationToken_chars hexact (Nat.le_refl _), hone, if_pos rfl]
  · simp only [if_neg hform]
    rfl

/-- What is no natural number is not accepted. -/
theorem checked_of_not_nat (hwide : gateActive rules.wideActivation blockTime = true)
    (hexact : gateActive rules.exactActivation blockTime = true)
    (hreads : ReadsCorrectly rules.number t) (hnot : ∀ n : ℕ, t.exactValue ≠ n) :
    checkedExpiration rules t.chars blockTime = none := by
  by_cases hread : (rules.number t.chars).isSafeInteger = true ∧
      (rules.number t.chars).isNonneg = true
  · -- what was rounded to a number from zero up is no integer
    obtain ⟨z, hz⟩ := Option.isSome_iff_exists.mp hread.1
    obtain ⟨hfinite, hsafe⟩ := safeInteger?_eq_some_iff.mp hz
    have hznonneg : 0 ≤ z := by
      have hnonneg := hread.2
      rw [hfinite] at hnonneg
      simpa [isNonneg] using hnonneg
    obtain ⟨n, rfl⟩ := Int.eq_ofNat_of_zero_le hznonneg
    have hfinite' : rules.number t.chars = .finite n := by rw [hfinite]; rfl
    have hone : isExactIntegerToken rules.number t.chars = false := by
      rw [← Bool.not_eq_true, Token.isExactIntegerToken_iff hreads]
      intro h
      obtain ⟨-, z, hint⟩ := h
      have hneg := hreads.value.not_isNonneg (Token.le_neg_one_of_int hint hnot)
      rw [hread.2] at hneg
      cases hneg
    rw [checkedExpiration_eq (normalize_of_safe hfinite' (by simpa using hsafe)),
      hasValidExpirationToken_chars hexact (by simpa using hsafe), hone]
    rfl
  -- and what is no safe integer is read from its digits, which spell no natural number
  · have hnormal : normalizeDispenserExpiration rules t.chars blockTime (rules.number t.chars) =
        none := by
      rw [normalize_of_not_safe hwide hread, Token.exactUnsignedDecimal_chars hreads]
      split_ifs with hform
      · cases hdigits : t.exactDigits with
        | none => rfl
        | some m => exact absurd (Token.exactValue_of_exactDigits hform.1 hdigits) (hnot m)
      · rfl
    rw [checkedExpiration_eq hnormal]
    rfl

/-- Accepted are the recognized spellings of unsigned integers of 64 bits, and stored is
    the integer, or the largest safe one. -/
theorem createExpiration_eq_some_iff (hwide : gateActive rules.wideActivation blockTime = true)
    (hexact : gateActive rules.exactActivation blockTime = true)
    (hreads : ReadsCorrectly rules.number t) (x : Double) :
    createExpiration rules (some t.chars) blockTime = some x ↔
      ∃ n : ℕ, t.exactValue = n ∧ n ≤ U64_MAX ∧ t.Recognized ∧
        x = .finite (min n MAX_SAFE_INTEGER : ℕ) := by
  rw [createExpiration_chars]
  by_cases hnat : ∃ n : ℕ, t.exactValue = n
  · obtain ⟨n, hvalue⟩ := hnat
    have hunique : ∀ m : ℕ, t.exactValue = m → m = n := by
      intro m hm
      rw [hvalue] at hm
      exact (Nat.cast_inj.mp hm).symm
    have hrecognized : n ≤ U64_MAX → (t.Recognized ↔ t.exponentValue.natAbs ≤ MAX_SAFE_INTEGER ∧
        (MAX_SAFE_INTEGER < n → t.int ≠ [] ∧ t.exponentDigitsCounted ≤ 6)) := by
      intro hbits
      constructor
      · exact fun h => h n hvalue hbits
      · intro h m hm _
        rw [hunique m hm]
        exact h
    -- below the bound the double is exact, above it the digits are read
    by_cases hsafe : n ≤ MAX_SAFE_INTEGER
    · have hbits : n ≤ U64_MAX := hsafe.trans (by decide)
      rw [checked_of_safe hexact hreads hvalue hsafe]
      constructor
      · intro h
        split_ifs at h with hexponent
        cases h
        refine ⟨n, hvalue, hbits, (hrecognized hbits).mpr ⟨hexponent, fun hlt => ?_⟩, ?_⟩
        · omega
        · rw [Nat.min_eq_left hsafe]
      · intro h
        obtain ⟨m, hm, -, hrec, rfl⟩ := h
        rw [hunique m hm, if_pos ((hrecognized hbits).mp hrec).1, Nat.min_eq_left hsafe]
    · have hlarge : MAX_SAFE_INTEGER < n := not_le.mp hsafe
      rw [checked_of_large hwide hexact hreads hvalue hlarge]
      constructor
      · intro h
        split_ifs at h with hform
        cases h
        refine ⟨n, hvalue, hform.1, (hrecognized hform.1).mpr
          ⟨Token.exponent_safe_of_counted hform.2.2, fun _ => hform.2⟩, ?_⟩
        rw [Nat.min_eq_right hlarge.le]
      · intro h
        obtain ⟨m, hm, hbits, hrec, rfl⟩ := h
        rw [hunique m hm] at hbits ⊢
        rw [if_pos ⟨hbits, ((hrecognized hbits).mp hrec).2 hlarge⟩, Nat.min_eq_right hlarge.le]
  · have hnot : ∀ n : ℕ, t.exactValue ≠ n := fun n h => hnat ⟨n, h⟩
    rw [checked_of_not_nat hwide hexact hreads hnot]
    constructor
    · exact nofun
    · intro h
      obtain ⟨n, hn, -⟩ := h
      exact absurd hn (hnot n)

/-- What an expiration should come to: accepted is an unsigned integer of 64 bits, stored
    as the integer or the largest safe one. -/
def Exact (t : Token) (outcome : Option Double) : Prop :=
  ∀ x, outcome = some x ↔
    ∃ n : ℕ, t.exactValue = n ∧ n ≤ U64_MAX ∧ x = .finite (min n MAX_SAFE_INTEGER : ℕ)

/-- **Exact expirations.** With both gates active and a conversion that rounds correctly,
    the expiration of a token is accepted and stored as its exact value says, if and only
    if the token is a recognized spelling; an edit extends to the same value where it lies
    ahead. Two recognized spellings of one value come to the same. -/
theorem expiration_exact_iff (hwide : gateActive rules.wideActivation blockTime = true)
    (hexact : gateActive rules.exactActivation blockTime = true)
    (hreads : ReadsCorrectly rules.number t) :
    (Exact t (createExpiration rules (some t.chars) blockTime) ↔ t.Recognized) ∧
    (∀ q : ℚ, editExpiration rules (some t.chars) blockTime = some (.finite q) ↔
      createExpiration rules (some t.chars) blockTime = some (.finite q) ∧ (blockTime : ℚ) < q) ∧
    ∀ t' : Token, ReadsCorrectly rules.number t' → t'.exactValue = t.exactValue →
      t.Recognized → t'.Recognized →
      createExpiration rules (some t.chars) blockTime =
        createExpiration rules (some t'.chars) blockTime := by
  refine ⟨?_, editExpiration_chars rules blockTime t, ?_⟩
  · constructor
    · intro h n hvalue hbits
      have hsome := (h _).mpr ⟨n, hvalue, hbits, rfl⟩
      obtain ⟨-, -, -, hrec, -⟩ := (createExpiration_eq_some_iff hwide hexact hreads _).mp hsome
      exact hrec n hvalue hbits
    · intro hrec x
      rw [createExpiration_eq_some_iff hwide hexact hreads]
      simp only [hrec, true_and]
  · intro t' hreads' hsame hrec hrec'
    ext x
    rw [createExpiration_eq_some_iff hwide hexact hreads,
      createExpiration_eq_some_iff hwide hexact hreads', hsame]
    simp only [hrec, hrec']

end Outcome

namespace Sample

/-- Twelve, in two digits. -/
def twelve : Token where
  sign := .none
  int := ['1', '2']
  point := false
  fraction := []
  exponent := none
  int_digits := by decide
  fraction_digits := by decide
  exponent_digits := nofun
  some_digits := by decide
  fraction_point := fun _ => rfl

/-- Two to the fifty-three, with no digit before the point: `.9007199254740992e16` -/
def leadingDot : Token where
  sign := .none
  int := []
  point := true
  fraction := ['9', '0', '0', '7', '1', '9', '9', '2', '5', '4', '7', '4', '0', '9', '9', '2']
  exponent := some (false, .none, ['1', '6'])
  int_digits := by decide
  fraction_digits := by decide
  exponent_digits := by
    intro e he
    cases he
    decide
  some_digits := by decide
  fraction_point := nofun

/-- The conversion, on the texts read here. -/
def number (text : List Char) : Double :=
  if text = twelve.chars then .finite (12 : ℤ)
  else if text = leadingDot.chars then .finite (2 ^ 53)
  else if text = ['1', '6'] then .finite (16 : ℤ)
  else .finite (0 : ℤ)

def rules : ExpirationRules where
  wideActivation := some 0
  exactActivation := some 0
  getDefaultExpiration := fun _ => .finite 0
  number := number

theorem roundsTo_self {q : ℚ} (h : Representable q) (hlt : |q| < overflow) :
    RoundsTo q (.finite q) := by
  refine .finite q hlt h (fun r _ => ?_)
  rw [sub_self, abs_zero]
  exact abs_nonneg _

theorem roundsTo_small {z : ℤ} (h : |z| < 2 ^ 53) : RoundsTo z (.finite z) := by
  have hlt : |(z : ℚ)| < 2 ^ 53 := by exact_mod_cast h
  exact roundsTo_self (representable_intCast h) (hlt.trans two_pow_lt_overflow)

theorem exactValue_twelve : twelve.exactValue = ((12 : ℤ) : ℚ) := by
  show ((12 : ℤ) : ℚ) * 10 ^ (0 : ℤ) = ((12 : ℤ) : ℚ)
  norm_num

theorem exactValue_leadingDot : leadingDot.exactValue = 2 ^ 53 := by
  show ((9007199254740992 : ℤ) : ℚ) * 10 ^ (0 : ℤ) = 2 ^ 53
  norm_num

theorem readsCorrectly_twelve : ReadsCorrectly number twelve where
  value := by
    rw [exactValue_twelve]
    exact roundsTo_small (by decide)
  exponent := roundsTo_small (z := 0) (by decide)

theorem readsCorrectly_leadingDot : ReadsCorrectly number leadingDot where
  value := by
    rw [exactValue_leadingDot]
    have hpos : |(2 : ℚ) ^ 53| = 2 ^ 53 := abs_of_pos (by norm_num)
    exact roundsTo_self representable_two_pow (hpos ▸ two_pow_lt_overflow)
  exponent := roundsTo_small (z := 16) (by decide)

theorem recognized_twelve : twelve.Recognized := by
  intro n hvalue _
  rw [exactValue_twelve] at hvalue
  have hn : n = 12 := by exact_mod_cast hvalue.symm
  rw [hn]
  exact ⟨by decide, fun h => absurd h (by decide)⟩

theorem twelve_accepted :
    createExpiration rules (some twelve.chars) 0 = some (.finite (12 : ℕ)) := by
  have hexact : Exact twelve (createExpiration rules (some twelve.chars) 0) :=
    (expiration_exact_iff rfl rfl readsCorrectly_twelve).1.mpr recognized_twelve
  exact (hexact _).mpr ⟨12, exactValue_twelve, by decide, rfl⟩

/-- Two to the fifty-three fits 64 bits, and is refused. -/
theorem leadingDot_refused :
    gateActive rules.wideActivation 0 = true ∧ gateActive rules.exactActivation 0 = true ∧
    ReadsCorrectly number leadingDot ∧ leadingDot.exactValue = (2 ^ 53 : ℕ) ∧ 2 ^ 53 ≤ U64_MAX ∧
    createExpiration rules (some leadingDot.chars) 0 = none ∧
    ¬ Exact leadingDot (createExpiration rules (some leadingDot.chars) 0) := by
  have hvalue : leadingDot.exactValue = (2 ^ 53 : ℕ) := by
    rw [exactValue_leadingDot]
    norm_num
  have hnone : createExpiration rules (some leadingDot.chars) 0 = none := by decide +kernel
  refine ⟨rfl, rfl, readsCorrectly_leadingDot, hvalue, by decide, hnone, fun h => ?_⟩
  have hsome := (h _).mpr ⟨2 ^ 53, hvalue, by decide, rfl⟩
  rw [hnone] at hsome
  cases hsome

end Sample

end XChainDecoder.Expiration
