import XChainDecoder.Migrate.Definition

/-! # The verdict on a type

    `narrowedType` over two types as they are stated: which pairs of names pass, and what
    a pair that passes keeps. A name that is in no table together with the live one is a
    loss; the others go by rank, length, precision or members.

    **Main results.** `kindred_of_none`: what passes is of a kind, and a sign goes only
    where the guard does not look for it. `not_membersLost`: lists that are not cut off
    keep their members. -/

namespace XChainDecoder.Migrate

open Sql Column

/-! ## Section 1: Pairs of types by name -/

/-- No rule of `narrowedType` but the last one is about a change of the one name to the
    other. -/
def unrelated (live next : List Char) : Bool :=
  live ≠ next && ((intRank live).isNone || (intRank next).isNone) &&
    ((textRank live).isNone || (textRank next).isNone) &&
    ((blobRank live).isNone || (blobRank next).isNone) &&
    !((intDigits.lookup live).isSome && next = "decimal".toList) &&
    !(isSized live && ((textRank next).any (1 < ·) || (blobRank next).any (1 < ·))) &&
    !(live = "timestamp".toList && next = "datetime".toList) &&
    !(live = "date".toList && next = "datetime".toList) &&
    !(live = "float".toList && next = "double".toList)

variable {live next : TypeText}

theorem widensAcross_eq_false (h : unrelated live.name next.name = true) :
    widensAcross live next = false := by
  simp only [unrelated, Bool.and_eq_true, Bool.not_eq_true', Bool.and_eq_false_iff] at h
  obtain ⟨⟨⟨⟨-, hdecimal⟩, hsized⟩, htimestamp⟩, hdate⟩ := h.1
  have hfloat := h.2
  unfold widensAcross
  split
  · rename_i signed unsigned hdigits hname
    rw [hdigits, hname] at hdecimal
    rcases hdecimal with h | h <;> cases h
  · by_cases hchars : isSized live.name = true
    · rw [if_pos hchars]
      rcases hsized with h | h
      · rw [hchars] at h
        cases h
      · exact h
    · rw [if_neg hchars, if_neg, if_neg]
      · rcases hfloat with h | h <;> rw [h] <;> simp
      · rintro ⟨hlive, hnext⟩
        rcases hdate with h | h
        · exact of_decide_eq_false h hlive
        · exact of_decide_eq_false h hnext
      · rintro ⟨hlive, hnext⟩
        rcases htimestamp with h | h
        · exact of_decide_eq_false h hlive
        · exact of_decide_eq_false h hnext

def canonicalName (name : List Char) : List Char := (typeAliases.lookup name).getD name

/-- A change of name that no table knows passes only the rule for it. -/
theorem narrowedCanonical_widens (hint : intRank live.name = none ∨ intRank next.name = none)
    (htext : textRank live.name = none ∨ textRank next.name = none)
    (hblob : blobRank live.name = none ∨ blobRank next.name = none) (hname : live.name ≠ next.name)
    (h : narrowedCanonical live next = none) : widensAcross live next = true := by
  by_contra hwidens
  refine absurd h ?_
  unfold narrowedCanonical
  split
  · rename_i l n hl hn
    rw [hl, hn] at hint
    rcases hint with h | h <;> cases h
  · split
    · rename_i l n hl hn
      rw [hl, hn] at htext
      rcases htext with h | h <;> cases h
    · split
      · rename_i l n hl hn
        rw [hl, hn] at hblob
        rcases hblob with h | h <;> cases h
      · rw [if_neg (fun h => hname h.2.symm), if_neg (fun h => hname h.2.symm), if_neg hname,
          if_neg hwidens]
        split <;> exact Option.some_ne_none _

/-- A change between unrelated names is a loss. -/
theorem narrowedCanonical_ne_none (h : unrelated live.name next.name = true) :
    narrowedCanonical live next ≠ none := by
  have hwidens := widensAcross_eq_false h
  simp only [unrelated, Bool.and_eq_true, Bool.or_eq_true, Option.isNone_iff_eq_none] at h
  obtain ⟨⟨⟨hne, hint⟩, htext⟩, hblob⟩ := h.1.1.1.1.1
  intro hnone
  rw [narrowedCanonical_widens hint htext hblob (of_decide_eq_true hne) hnone] at hwidens
  cases hwidens

/-- The pairs of stored names that some rule is about. -/
def related (live next : TypeName) : Bool :=
  match live.family, next.family with
  | .integer _, .integer _ | .integer _, .decimal | .decimal, .decimal => true
  | .chars, .chars => live = next
  | .chars, .text size | .chars, .blob size => 1 < size.rank
  | .text _, .text _ | .blob _, .blob _ | .date, .date => true
  | .date, .moment => next = .datetime
  | .moment, .moment => live = next || next = .datetime
  | .time, .time | .enum, .enum | .set, .set => true
  | _, _ => false

theorem unrelated_or_related {a b : TypeName} (ha : a.stored = a) :
    unrelated a.letters (canonicalName b.letters) = true ∨
      canonicalName b.letters = b.stored.letters ∧ related a b.stored = true := by
  have hall : TypeName.all.all (fun a => a.stored ≠ a || TypeName.all.all (fun b =>
      unrelated a.letters (canonicalName b.letters) ||
        (canonicalName b.letters = b.stored.letters && related a b.stored))) = true := by
    decide +kernel
  have hpair := List.all_eq_true.mp hall a a.mem_all
  rw [Bool.or_eq_true] at hpair
  rcases hpair with hne | hpair
  · exact absurd ha (of_decide_eq_true hne)
  · have hb := List.all_eq_true.mp hpair b b.mem_all
    rw [Bool.or_eq_true, Bool.and_eq_true] at hb
    exact hb.imp_right (fun h => ⟨of_decide_eq_true h.1, h.2⟩)

/-! ## Section 2: The tables and the rules -/

namespace Family

def intRank : Family → Option ℕ
  | integer .tinyint   => some 1
  | integer .smallint  => some 2
  | integer .mediumint => some 3
  | integer .int       => some 4
  | integer .bigint    => some 5
  | _ => none

def textRank : Family → Option ℕ
  | text size => some size.rank
  | _ => none

def blobRank : Family → Option ℕ
  | blob size => some size.rank
  | _ => none

def intDigits : Family → Option (ℕ × ℕ)
  | integer kind => some (kind.digits false, kind.digits true)
  | _ => none

theorem bits_of_intRank {kind kind' : IntKind} {l n : ℕ} (hl : (integer kind).intRank = some l)
    (hn : (integer kind').intRank = some n) :
    (l < n → kind.bits < kind'.bits) ∧ (l = n → kind = kind') := by
  cases kind <;> cases kind' <;> obtain rfl := Option.some.inj hl <;>
    obtain rfl := Option.some.inj hn <;> decide

theorem exists_intRank (kind : IntKind) : ∃ n, (integer kind).intRank = some n := by
  cases kind <;> exact ⟨_, rfl⟩

end Family

/-- The guard's tables know the stored names by their families. -/
structure Known (a : TypeName) : Prop where
  int    : intRank a.letters = a.family.intRank
  text   : textRank a.letters = a.family.textRank
  blob   : blobRank a.letters = a.family.blobRank
  sized  : isSized a.letters = decide (a.family = .chars)
  digits : intDigits.lookup a.letters = a.family.intDigits

theorem known_of_stored {a : TypeName} (h : a.stored = a) : Known a := by
  cases a with
  | int1 | bool | boolean | int2 | int3 | middleint | integer | int4 | int8 | dec | numeric | fixed =>
    exact absurd h (by decide)
  | _ => exact ⟨rfl, rfl, rfl, rfl, rfl⟩

theorem stored_stored (a : TypeName) : a.stored.stored = a.stored := by
  cases a <;> rfl

theorem family_stored (a : TypeName) : a.stored.family = a.family := by
  cases a <;> rfl

/-- Integers: a greater rank, or the same one under the same sign. -/
theorem narrowedCanonical_int {l n : ℕ} (hl : intRank live.name = some l)
    (hn : intRank next.name = some n) (h : narrowedCanonical live next = none) :
    l < n ∨ l = n ∧ live.isUnsigned = next.isUnsigned := by
  unfold narrowedCanonical at h
  rw [hl, hn] at h
  by_cases hlt : n < l
  · simp [hlt] at h
  · simp only [if_neg hlt] at h
    by_cases hsame : n = l ∧ live.isUnsigned ≠ next.isUnsigned
    · simp [hsame] at h
    · by_cases heq : n = l
      · exact Or.inr ⟨heq.symm, by_contra fun hne => hsame ⟨heq, hne⟩⟩
      · exact Or.inl (by omega)

theorem narrowedRank_eq_none {l n : ℕ} (h : narrowedRank live next l n = none) : l ≤ n := by
  by_contra hlt
  rw [narrowedRank, if_pos (by omega)] at h
  cases h

theorem narrowedCanonical_text {l n : ℕ} (hint : intRank live.name = none)
    (hl : textRank live.name = some l) (hn : textRank next.name = some n)
    (h : narrowedCanonical live next = none) : l ≤ n := by
  unfold narrowedCanonical at h
  rw [hint, hl, hn] at h
  exact narrowedRank_eq_none h

theorem narrowedCanonical_blob {l n : ℕ} (hint : intRank live.name = none)
    (htext : textRank live.name = none) (hl : blobRank live.name = some l)
    (hn : blobRank next.name = some n) (h : narrowedCanonical live next = none) : l ≤ n := by
  unfold narrowedCanonical at h
  rw [hint, htext, hl, hn] at h
  exact narrowedRank_eq_none h

/-- The rules behind the tables. -/
theorem narrowedCanonical_sized (hint : intRank live.name = none) (htext : textRank live.name = none)
    (hblob : blobRank live.name = none) (hsized : isSized live.name = true)
    (hname : next.name = live.name) (h : narrowedCanonical live next = none) :
    isLess (lengthOf next.args) (lengthOf live.args) = false := by
  unfold narrowedCanonical at h
  rw [hint, htext, hblob] at h
  simp only [if_pos (And.intro hsized hname)] at h
  by_contra hless
  rw [Bool.not_eq_false] at hless
  rw [if_pos hless] at h
  cases h

theorem narrowedCanonical_members (hint : intRank live.name = none)
    (htext : textRank live.name = none) (hblob : blobRank live.name = none)
    (hsized : isSized live.name = false)
    (hlist : live.name = "enum".toList ∨ live.name = "set".toList) (hname : next.name = live.name)
    (h : narrowedCanonical live next = none) : lostMembers live next = [] := by
  unfold narrowedCanonical at h
  rw [hint, htext, hblob] at h
  have hnot : ¬(isSized live.name = true ∧ next.name = live.name) := by simp [hsized]
  simp only [if_neg hnot, if_pos (And.intro hlist hname)] at h
  by_contra hlost
  rw [if_neg hlost] at h
  cases h

theorem narrowedCanonical_same (hint : intRank live.name = none) (htext : textRank live.name = none)
    (hblob : blobRank live.name = none) (hsized : isSized live.name = false)
    (hlist : ¬(live.name = "enum".toList ∨ live.name = "set".toList)) (hname : live.name = next.name)
    (h : narrowedCanonical live next = none) : narrowedPrecision live next = none := by
  unfold narrowedCanonical at h
  rw [hint, htext, hblob] at h
  have hnot : ¬(isSized live.name = true ∧ next.name = live.name) := by simp [hsized]
  have hnot' : ¬((live.name = "enum".toList ∨ live.name = "set".toList) ∧ next.name = live.name) :=
    fun h => hlist h.1
  simp only [if_neg hnot, if_neg hnot', if_pos hname] at h
  exact h

theorem narrowedPrecision_fsp (hdecimal : live.name ≠ "decimal".toList)
    (hfsp : isFsp live.name = true) (h : narrowedPrecision live next = none) :
    isLess (fsp next.args) (fsp live.args) = false := by
  unfold narrowedPrecision at h
  rw [if_neg hdecimal, if_pos hfsp] at h
  by_contra hless
  rw [Bool.not_eq_false] at hless
  rw [if_pos hless] at h
  cases h

/-! ## Section 3: What the values of a type are made of -/

section Read

variable {t : TypeSpec} {args : Option (List Char)}

theorem columnType_integer {kind : IntKind} (hf : t.name.family = .integer kind) (charset : Charset) :
    t.columnType charset = .integer kind t.isUnsigned := by
  unfold TypeSpec.columnType
  rw [hf]

theorem columnType_decimal (hf : t.name.family = .decimal) (h : t.args.ReadAs args) :
    ∃ p s : ℕ, decimalArgs args = (some (p : ℤ), some (s : ℤ)) ∧
      ∀ charset, t.columnType charset = .decimal (if p = 0 then 10 else p) s t.isUnsigned := by
  have htakes := t.takes
  rw [hf] at htakes
  unfold TypeSpec.columnType
  rw [hf]
  cases hargs : t.args with
  | none =>
    rw [hargs] at h
    obtain rfl : args = none := h
    exact ⟨10, 0, rfl, fun _ => rfl⟩
  | one p =>
    rw [hargs] at h
    exact ⟨p.value, 0, h.2, fun _ => rfl⟩
  | two p s =>
    rw [hargs] at h
    exact ⟨p.value, s.value, h, fun _ => rfl⟩
  | members list =>
    rw [hargs] at htakes
    cases htakes

theorem exists_chars (hf : t.name.family = .chars) :
    ∃ length, ∀ charset, t.columnType charset = .chars length := by
  unfold TypeSpec.columnType
  rw [hf]
  cases hargs : t.args with
  | one n => exact ⟨n.value, fun _ => rfl⟩
  | _ => exact ⟨1, fun _ => rfl⟩

/-- The length the guard reads is no greater than the column's. -/
theorem columnType_chars (hf : t.name.family = .chars) (h : t.args.ReadAs args) :
    ∃ length length' : ℕ, lengthOf args = some (length : ℤ) ∧ length ≤ length' ∧
      (t.args ≠ .none → length = length') ∧ ∀ charset, t.columnType charset = .chars length' := by
  have htakes := t.takes
  rw [hf] at htakes
  unfold TypeSpec.columnType
  rw [hf]
  cases hargs : t.args with
  | none =>
    rw [hargs] at h
    obtain rfl : args = none := h
    exact ⟨0, 1, rfl, by decide, fun hne => absurd rfl hne, fun _ => rfl⟩
  | one n =>
    rw [hargs] at h
    exact ⟨n.value, n.value, h.1, le_refl _, fun _ => rfl, fun _ => rfl⟩
  | two p s =>
    rw [hargs] at htakes
    cases htakes
  | members list =>
    rw [hargs] at htakes
    cases htakes

theorem fsp_of_readAs (hf : t.name.family = .moment ∨ t.name.family = .time)
    (h : t.args.ReadAs args) : fsp args = some (t.args.fsp : ℤ) := by
  have htakes := t.takes
  cases hargs : t.args with
  | none =>
    rw [hargs] at h
    obtain rfl : args = none := h
    rfl
  | one n =>
    rw [hargs] at h
    exact h.1
  | two p s => rcases hf with hf | hf <;> rw [hf, hargs] at htakes <;> cases htakes
  | members list => rcases hf with hf | hf <;> rw [hf, hargs] at htakes <;> cases htakes

theorem columnType_moment (hf : t.name.family = .moment) (charset : Charset) :
    t.columnType charset = .moment t.args.fsp := by
  unfold TypeSpec.columnType
  rw [hf]

theorem columnType_time (hf : t.name.family = .time) (charset : Charset) :
    t.columnType charset = .time t.args.fsp := by
  unfold TypeSpec.columnType
  rw [hf]

/-- Without a length the name gives the size. -/
theorem columnType_text {size : LobSize} (hf : t.name.family = .text size) (charset : Charset) :
    ∃ size' : LobSize, t.columnType charset = .text size'.capacity ∧
      ((∀ n, t.args ≠ .one n) → size' = size) := by
  unfold TypeSpec.columnType
  rw [hf]
  cases hargs : t.args with
  | one n => exact ⟨_, rfl, fun h => absurd rfl (h n)⟩
  | none => exact ⟨size, rfl, fun _ => rfl⟩
  | two p s => exact ⟨size, rfl, fun _ => rfl⟩
  | members list => exact ⟨size, rfl, fun _ => rfl⟩

theorem columnType_blob {size : LobSize} (hf : t.name.family = .blob size) (charset : Charset) :
    ∃ size' : LobSize, t.columnType charset = .blob size'.capacity ∧
      ((∀ n, t.args ≠ .one n) → size' = size) := by
  unfold TypeSpec.columnType
  rw [hf]
  cases hargs : t.args with
  | one n => exact ⟨_, rfl, fun h => absurd rfl (h n)⟩
  | none => exact ⟨size, rfl, fun _ => rfl⟩
  | two p s => exact ⟨size, rfl, fun _ => rfl⟩
  | members list => exact ⟨size, rfl, fun _ => rfl⟩

theorem columnType_date (hf : t.name.family = .date) (charset : Charset) :
    t.columnType charset = .date := by
  unfold TypeSpec.columnType
  rw [hf]

theorem columnType_enum (hf : t.name.family = .enum) (charset : Charset) :
    t.columnType charset = .enum (t.args.list.map Member.name) := by
  unfold TypeSpec.columnType
  rw [hf]

theorem columnType_set (hf : t.name.family = .set) (charset : Charset) :
    t.columnType charset = .set (t.args.list.map Member.name) := by
  unfold TypeSpec.columnType
  rw [hf]

end Read

/-! ## Section 4: The verdict on two types -/

/-- The guard reads the type so, under the stored name. -/
structure ReadAs (t : TypeSpec) (r : TypeText) : Prop where
  name     : r.name = t.name.stored.letters
  args     : t.args.ReadAs r.args
  unsigned : r.isUnsigned = decide (t.options.head? = some .unsigned)

/-- UNSIGNED is not looked for where it stands, or not at all between two integer types. -/
def SignUnseen (live next : TypeSpec) : Prop :=
  (∃ kind kind', live.name.family = .integer kind ∧ next.name.family = .integer kind' ∧
    kind.bits < kind'.bits) ∨ next.options.head? ≠ some .unsigned

section Verdict

variable {live next : TypeSpec} {r r' : TypeText} {charset charset' : Charset}

theorem ReadAs.isUnsigned_live (h : ReadAs live r) (hlive : live.IsShown) :
    r.isUnsigned = live.isUnsigned := by
  rw [h.unsigned, TypeSpec.isUnsigned]
  rcases hlive.options with ho | ho | ho <;> rw [ho] <;> rfl

theorem ReadAs.isUnsigned_next (h : ReadAs next r) (hr : r.isUnsigned = true) :
    next.isUnsigned = true := by
  rw [h.unsigned] at hr
  obtain ⟨options, ho⟩ := List.head?_eq_some_iff.mp (of_decide_eq_true hr)
  rw [TypeSpec.isUnsigned, ho]
  rfl

theorem ReadAs.head?_ne (h : ReadAs next r) (hr : r.isUnsigned = false) :
    next.options.head? ≠ some .unsigned := by
  rw [h.unsigned] at hr
  exact of_decide_eq_false hr

theorem known (t : TypeSpec) : Known t.name.stored := known_of_stored (stored_stored t.name)

theorem ReadAs.int (h : ReadAs live r) : intRank r.name = live.name.family.intRank := by
  rw [h.name, (known live).int, family_stored]

theorem ReadAs.text (h : ReadAs live r) : textRank r.name = live.name.family.textRank := by
  rw [h.name, (known live).text, family_stored]

theorem ReadAs.blob (h : ReadAs live r) : blobRank r.name = live.name.family.blobRank := by
  rw [h.name, (known live).blob, family_stored]

theorem ReadAs.sized (h : ReadAs live r) : isSized r.name = decide (live.name.family = .chars) := by
  rw [h.name, (known live).sized, family_stored]

theorem ReadAs.digits (h : ReadAs live r) :
    intDigits.lookup r.name = live.name.family.intDigits := by
  rw [h.name, (known live).digits, family_stored]

/-- Two integer types. -/
theorem verdict_integer (charset charset' : Charset) {kind kind' : IntKind}
    (hlive : live.IsShown) (h : ReadAs live r) (h' : ReadAs next r')
    (hf : live.name.family = .integer kind) (hf' : next.name.family = .integer kind')
    (hnone : narrowedCanonical r r' = none) :
    Kindred (live.columnType charset) (next.columnType charset') ∧
      (live.isUnsigned = false → SignUnseen live next) := by
  obtain ⟨l, hl⟩ := Family.exists_intRank kind
  obtain ⟨n, hn⟩ := Family.exists_intRank kind'
  have hkinds := Family.bits_of_intRank hl hn
  have hcase := narrowedCanonical_int (h.int.trans (hf ▸ hl)) (h'.int.trans (hf' ▸ hn)) hnone
  have hunsigned := h.isUnsigned_live hlive
  rw [columnType_integer hf, columnType_integer hf']
  constructor
  · refine .integer (hcase.imp hkinds.1 fun hsame => ⟨hkinds.2 hsame.1, fun hsign => ?_⟩)
    refine h'.isUnsigned_next ?_
    rw [← hsame.2, hunsigned, hsign]
  · intro hsigned
    rcases hcase with hlt | hsame
    · exact Or.inl ⟨kind, kind', hf, hf', hkinds.1 hlt⟩
    · refine Or.inr (h'.head?_ne ?_)
      rw [← hsame.2, hunsigned, hsigned]

theorem isLess_eq_false {a b : ℤ} (h : isLess (some a) (some b) = false) : b ≤ a := by
  have hnot : ¬a < b := of_decide_eq_false h
  omega

theorem ReadAs.name_decimal (h : ReadAs live r) (hf : live.name.family = .decimal) :
    r.name = "decimal".toList := by
  have hstored : live.name.stored = .decimal := by
    cases hn : live.name <;> rw [hn] at hf <;> first | rfl | cases hf
  rw [h.name, hstored]
  rfl

/-- An integer type and a decimal. -/
theorem verdict_integerDecimal (charset charset' : Charset) {kind : IntKind}
    (hlive : live.IsShown) (h : ReadAs live r) (h' : ReadAs next r')
    (hf : live.name.family = .integer kind) (hf' : next.name.family = .decimal)
    (hnone : narrowedCanonical r r' = none) :
    Kindred (live.columnType charset) (next.columnType charset') ∧
      (live.isUnsigned = false → SignUnseen live next) := by
  have hname := h'.name_decimal hf'
  have hne : r.name ≠ r'.name := by
    intro heq
    have hint := h.int
    rw [heq, h'.int, hf, hf'] at hint
    obtain ⟨l, hl⟩ := Family.exists_intRank kind
    rw [hl] at hint
    cases hint
  have hwidens := narrowedCanonical_widens (Or.inr (h'.int.trans (by rw [hf']; rfl)))
    (Or.inl (h.text.trans (by rw [hf]; rfl))) (Or.inl (h.blob.trans (by rw [hf]; rfl))) hne hnone
  -- the check asks for room for all digits of the integer kind before the point
  have hdigits : intDigits.lookup r.name = some (kind.digits false, kind.digits true) := by
    rw [h.digits, hf]
    rfl
  obtain ⟨p, s, hargs, htype⟩ := columnType_decimal hf' h'.args
  unfold widensAcross at hwidens
  rw [hdigits, hname] at hwidens
  simp only [decide_true, hargs, minus, Option.bind_some, Option.map_some, Option.isSome_some,
    Bool.and_true, Bool.and_eq_true, Bool.not_eq_true', gainsSign, Bool.and_eq_false_iff,
    Bool.not_eq_false'] at hwidens
  have hunsigned := h.isUnsigned_live hlive
  have hroom : kind.digits live.isUnsigned + s ≤ p := by
    have hle := isLess_eq_false hwidens.1
    rw [hunsigned] at hle
    cases hsign : live.isUnsigned <;> rw [hsign] at hle <;> simp at hle <;> omega
  have hp : p ≠ 0 := by
    have hpos : 0 < kind.digits live.isUnsigned := by
      cases kind <;> cases live.isUnsigned <;> decide
    omega
  rw [columnType_integer hf, htype, if_neg hp]
  refine ⟨.integerDecimal hroom, fun hsigned => Or.inr (h'.head?_ne ?_)⟩
  rcases hwidens.2 with hsign | hsign
  · exact hsign
  · rw [hunsigned, hsigned] at hsign
    cases hsign

/-- Two decimals. -/
theorem verdict_decimal (charset charset' : Charset) (hlive : live.IsShown)
    (h : ReadAs live r) (h' : ReadAs next r')
    (hf : live.name.family = .decimal) (hf' : next.name.family = .decimal)
    (hnone : narrowedCanonical r r' = none) :
    Kindred (live.columnType charset) (next.columnType charset') ∧
      (live.isUnsigned = false → SignUnseen live next) := by
  have hname := h.name_decimal hf
  have hname' := h'.name_decimal hf'
  have hlist : ¬(r.name = "enum".toList ∨ r.name = "set".toList) := by
    rw [hname]
    decide
  have hprecision := narrowedCanonical_same (h.int.trans (by rw [hf]; rfl))
    (h.text.trans (by rw [hf]; rfl)) (h.blob.trans (by rw [hf]; rfl))
    (h.sized.trans (by rw [hf]; rfl)) hlist (hname.trans hname'.symm) hnone
  obtain ⟨lp, ls, hargs, htype⟩ := columnType_decimal hf h.args
  obtain ⟨np, ns, hargs', htype'⟩ := columnType_decimal hf' h'.args
  -- a live column is shown with a precision that is not zero
  have hpos : 0 < lp := by
    obtain ⟨p, s, hshown, hp⟩ := hlive.decimal hf
    have hread := h.args
    rw [hshown] at hread
    rw [hread] at hargs
    have hlp : (p.value : ℤ) = lp := Option.some.inj (Prod.mk.inj hargs).1
    omega
  unfold narrowedPrecision at hprecision
  rw [if_pos hname, hargs, hargs'] at hprecision
  simp only [minus, Option.bind_some, Option.map_some] at hprecision
  split at hprecision
  · cases hprecision
  · rename_i hkept
    rw [Bool.not_eq_true, Bool.or_eq_false_iff, Bool.or_eq_false_iff] at hkept
    have hwhole := isLess_eq_false hkept.1.1
    have hscale := isLess_eq_false hkept.1.2
    have hnp : np ≠ 0 := by omega
    rw [htype, htype', if_neg (by omega), if_neg hnp]
    refine ⟨.decimal hpos (by omega) (by omega), fun hsigned => Or.inr (h'.head?_ne ?_)⟩
    have hgains := hkept.2
    rw [gainsSign, h.isUnsigned_live hlive, hsigned, Bool.not_false, Bool.and_true] at hgains
    exact hgains

/-- CHAR and CHAR, VARCHAR and VARCHAR. -/
theorem verdict_chars (hlive : live.IsShown) (h : ReadAs live r) (h' : ReadAs next r')
    (hf : live.name.family = .chars) (hf' : next.name.family = .chars)
    (hname : live.name.stored = next.name.stored) (hnone : narrowedCanonical r r' = none) :
    Kindred (live.columnType charset) (next.columnType charset') := by
  have hless := narrowedCanonical_sized (h.int.trans (by rw [hf]; rfl))
    (h.text.trans (by rw [hf]; rfl)) (h.blob.trans (by rw [hf]; rfl))
    (h.sized.trans (by rw [hf]; rfl)) (by rw [h.name, h'.name, hname]) hnone
  obtain ⟨length, length', hread, -, hsame, htype⟩ := columnType_chars hf h.args
  obtain ⟨nextLength, nextLength', hread', hle, -, htype'⟩ := columnType_chars hf' h'.args
  have hlength : length = length' := by
    refine hsame ?_
    obtain ⟨n, hn⟩ := hlive.chars hf
    rw [hn]
    exact fun h => TypeArgs.noConfusion h
  rw [hread, hread'] at hless
  have hkept := isLess_eq_false hless
  rw [htype, htype']
  exact .chars (by omega)

/-- The precision of points in time. -/
theorem verdict_moment (h : ReadAs live r) (h' : ReadAs next r') (hf : live.name.family = .moment)
    (hf' : next.name.family = .moment)
    (hname : live.name.stored = next.name.stored ∨ next.name.stored = .datetime)
    (hnone : narrowedCanonical r r' = none) :
    Kindred (live.columnType charset) (next.columnType charset') := by
  have hread := fsp_of_readAs (Or.inl hf) h.args
  have hread' := fsp_of_readAs (Or.inl hf') h'.args
  have hfsp : isLess (fsp r'.args) (fsp r.args) = false := by
    have hstored : live.name.stored = .datetime ∨ live.name.stored = .timestamp := by
      cases hn : live.name <;> rw [hn] at hf <;> first | exact Or.inl rfl | exact Or.inr rfl | cases hf
    -- one name: the precisions are compared
    by_cases heq : live.name.stored = next.name.stored
    · have hlist : ¬(r.name = "enum".toList ∨ r.name = "set".toList) := by
        rw [h.name]
        rcases hstored with hs | hs <;> rw [hs] <;> decide
      have hprecision := narrowedCanonical_same (h.int.trans (by rw [hf]; rfl))
        (h.text.trans (by rw [hf]; rfl)) (h.blob.trans (by rw [hf]; rfl))
        (h.sized.trans (by rw [hf]; rfl)) hlist (by rw [h.name, h'.name, heq]) hnone
      have hdecimal : r.name ≠ "decimal".toList := by
        rw [h.name]
        rcases hstored with hs | hs <;> rw [hs] <;> decide
      have hisFsp : isFsp r.name = true := by
        rw [h.name]
        rcases hstored with hs | hs <;> rw [hs] <;> decide
      exact narrowedPrecision_fsp hdecimal hisFsp hprecision
    -- two names: a timestamp becomes a datetime, which widens by its precision
    · have hdatetime := hname.resolve_left heq
      have htimestamp : live.name.stored = .timestamp :=
        hstored.resolve_left (fun hs => heq (hs.trans hdatetime.symm))
      have hnames : r.name = "timestamp".toList ∧ r'.name = "datetime".toList := by
        rw [h.name, h'.name, htimestamp, hdatetime]
        exact ⟨rfl, rfl⟩
      have hwidens := narrowedCanonical_widens (Or.inl (h.int.trans (by rw [hf]; rfl)))
        (Or.inl (h.text.trans (by rw [hf]; rfl))) (Or.inl (h.blob.trans (by rw [hf]; rfl)))
        (by rw [hnames.1, hnames.2]; decide) hnone
      have hdigits : intDigits.lookup r.name = none := by
        rw [h.digits, hf]
        rfl
      have hsized : isSized r.name = false := h.sized.trans (by rw [hf]; rfl)
      unfold widensAcross at hwidens
      rw [hdigits, hsized] at hwidens
      simp only [Bool.false_eq_true, if_false, if_pos hnames, Bool.and_eq_true, Bool.not_eq_true']
        at hwidens
      exact hwidens.2
  rw [hread, hread'] at hfsp
  have hkept := isLess_eq_false hfsp
  rw [columnType_moment hf, columnType_moment hf']
  exact .moment (by omega)

theorem verdict_time (h : ReadAs live r) (h' : ReadAs next r') (hf : live.name.family = .time)
    (hf' : next.name.family = .time) (hnone : narrowedCanonical r r' = none) :
    Kindred (live.columnType charset) (next.columnType charset') := by
  have hstored : ∀ {t : TypeSpec}, t.name.family = .time → t.name.stored = .time := by
    intro t ht
    cases hn : t.name <;> rw [hn] at ht <;> first | rfl | cases ht
  have hname : r.name = "time".toList := by
    rw [h.name, hstored hf]
    rfl
  have hprecision := narrowedCanonical_same (h.int.trans (by rw [hf]; rfl))
    (h.text.trans (by rw [hf]; rfl)) (h.blob.trans (by rw [hf]; rfl))
    (h.sized.trans (by rw [hf]; rfl)) (by rw [hname]; decide)
    (by rw [h.name, h'.name, hstored hf, hstored hf']) hnone
  have hfsp := narrowedPrecision_fsp (by rw [hname]; decide) (by rw [hname]; decide) hprecision
  rw [fsp_of_readAs (Or.inr hf) h.args, fsp_of_readAs (Or.inr hf') h'.args] at hfsp
  have hkept := isLess_eq_false hfsp
  rw [columnType_time hf, columnType_time hf']
  exact .time (by omega)


/-- A smaller TEXT or BLOB is a loss. -/
theorem verdict_text {size size' : LobSize} (h : ReadAs live r) (h' : ReadAs next r')
    (hf : live.name.family = .text size) (hf' : next.name.family = .text size')
    (hnone : narrowedCanonical r r' = none) : size.rank ≤ size'.rank :=
  narrowedCanonical_text (h.int.trans (by rw [hf]; rfl)) (h.text.trans (by rw [hf]; rfl))
    (h'.text.trans (by rw [hf']; rfl)) hnone

theorem verdict_blob {size size' : LobSize} (h : ReadAs live r) (h' : ReadAs next r')
    (hf : live.name.family = .blob size) (hf' : next.name.family = .blob size')
    (hnone : narrowedCanonical r r' = none) : size.rank ≤ size'.rank :=
  narrowedCanonical_blob (h.int.trans (by rw [hf]; rfl)) (h.text.trans (by rw [hf]; rfl))
    (h.blob.trans (by rw [hf]; rfl)) (h'.blob.trans (by rw [hf']; rfl)) hnone

end Verdict

/-! ## Section 5: The verdict on two texts -/

theorem canonicalName_letters {a : TypeName} (h : a.stored = a) : canonicalName a.letters = a.letters := by
  cases a with
  | int1 | bool | boolean | int2 | int3 | middleint | integer | int4 | int8 | dec | numeric | fixed =>
    exact absurd h (by decide)
  | _ => rfl

/-- The types whose parentheses hold members. -/
def Family.isList : Family → Bool
  | enum | set => true
  | _ => false

theorem list_eq_nil {t : TypeSpec} (h : t.name.family.isList = false) : t.args.list = [] := by
  have htakes := t.takes
  cases hargs : t.args with
  | members list =>
    rw [hargs] at htakes
    cases hf : t.name.family with
    | enum => rw [hf] at h; cases h
    | set => rw [hf] at h; cases h
    | text size => rw [hf] at htakes; cases size <;> cases htakes
    | blob size => rw [hf] at htakes; cases size <;> cases htakes
    | _ => rw [hf] at htakes; cases htakes
  | _ => rfl

theorem head?_ne_open (attributes : List Attribute) :
    (attributes.flatMap Attribute.atoms).head? ≠ some (.sign '(') := by
  rcases head?_attributes attributes with hnone | ⟨w, hw, -⟩
  · rw [hnone]
    exact fun h => by cases h
  · rw [hw]
    exact fun h => by cases h

section Texts

variable {live : LiveColumn} {next : Definition} {text : List Char}

theorem live_reads (live : LiveColumn) :
    Reads (live.row.columnType.getD []) (live.type.atoms ++ [].flatMap Attribute.atoms) := by
  rw [List.flatMap_nil, List.append_nil]
  exact live.reads

/-- The names are of a kind, or the change is a loss. -/
theorem related_of_none (hreads : Reads text next.atoms)
    (hnone : narrowedType (parseLiveType live.row.columnType) (parseType text) = none) :
    canonicalName next.type.name.letters = next.type.name.stored.letters ∧
      related live.type.name next.type.name.stored = true := by
  obtain ⟨r, hr, hname⟩ := live.type.parseType_name (live_reads live)
  obtain ⟨r', hr', hname'⟩ := next.type.parseType_name hreads
  rcases unrelated_or_related (b := next.type.name) live.shown.name with hunrelated | hrelated
  · unfold narrowedType parseLiveType at hnone
    rw [hr, hr'] at hnone
    have hwidens : unrelated (canonicalType r).name (canonicalType r').name = true := by
      have hcanon : (canonicalType r).name = live.type.name.letters := by
        rw [← canonicalName_letters live.shown.name, ← hname]
        rfl
      have hcanon' : (canonicalType r').name = canonicalName next.type.name.letters := by
        rw [← hname']
        rfl
      rw [hcanon, hcanon']
      exact hunrelated
    exact absurd hnone (narrowedCanonical_ne_none hwidens)
  · exact hrelated

/-- What the guard compares, where no list of members is cut off. -/
theorem readAs_of_none (hreads : Reads text next.atoms)
    (hclean : ∀ m ∈ live.type.args.list, ')' ∉ m.body)
    (hclean' : ∀ m ∈ next.type.args.list, ')' ∉ m.body)
    (hnone : narrowedType (parseLiveType live.row.columnType) (parseType text) = none) :
    ∃ r r', ReadAs live.type r ∧ ReadAs next.type r' ∧ narrowedCanonical r r' = none := by
  obtain ⟨args, hr, hargs⟩ := live.type.parseType_eq hclean (head?_ne_open []) (live_reads live)
  obtain ⟨args', hr', hargs'⟩ :=
    next.type.parseType_eq hclean' (head?_ne_open next.attributes) hreads
  have hrelated := related_of_none hreads hnone
  rw [readsUnsigned_eq] at hr hr'
  unfold narrowedType parseLiveType at hnone
  rw [hr, hr'] at hnone
  refine ⟨_, _, ⟨?_, hargs, rfl⟩, ⟨?_, hargs', rfl⟩, hnone⟩
  · rw [live.shown.name]
    exact canonicalName_letters live.shown.name
  · exact hrelated.1

theorem readAs_of_not_list (hreads : Reads text next.atoms)
    (hnone : narrowedType (parseLiveType live.row.columnType) (parseType text) = none)
    (hlist : live.type.name.family.isList = false) (hlist' : next.type.name.family.isList = false) :
    ∃ r r', ReadAs live.type r ∧ ReadAs next.type r' ∧ narrowedCanonical r r' = none := by
  refine readAs_of_none hreads ?_ ?_ hnone
  · rw [list_eq_nil hlist]
    exact fun m hm => absurd hm List.not_mem_nil
  · rw [list_eq_nil hlist']
    exact fun m hm => absurd hm List.not_mem_nil

/-- Between types the guard lets through only these four things can be lost, and a sign
    only where the guard does not look for it. -/
theorem kindred_of_none (hreads : Reads text next.atoms) (charset charset' : Charset)
    (hnone : narrowedType (parseLiveType live.row.columnType) (parseType text) = none) :
    Kindred (live.type.columnType charset) (next.type.columnType charset') ∧
      (SignLost (live.type.columnType charset) (next.type.columnType charset') →
        SignUnseen live.type next.type) := by
  have hrelated := (related_of_none hreads hnone).2
  have hreadAs := readAs_of_not_list hreads hnone
  have hstored := live.shown.name
  unfold related at hrelated
  rw [family_stored] at hrelated
  -- the pairs of families that are related; the others were reported
  cases hf : live.type.name.family with
  | integer kind =>
    cases hf' : next.type.name.family with
    | integer kind' =>
      obtain ⟨r, r', h, h', hnone⟩ := hreadAs (by rw [hf]; rfl) (by rw [hf']; rfl)
      have hverdict := verdict_integer charset charset' live.shown h h' hf hf' hnone
      refine ⟨hverdict.1, fun hsign => hverdict.2 ?_⟩
      rw [columnType_integer hf, columnType_integer hf'] at hsign
      exact hsign.1
    | decimal =>
      obtain ⟨r, r', h, h', hnone⟩ := hreadAs (by rw [hf]; rfl) (by rw [hf']; rfl)
      have hverdict := verdict_integerDecimal charset charset' live.shown h h' hf hf' hnone
      refine ⟨hverdict.1, fun hsign => hverdict.2 ?_⟩
      obtain ⟨p, s, -, htype⟩ := columnType_decimal hf' h'.args
      rw [columnType_integer hf, htype] at hsign
      exact hsign.1
    | _ => rw [hf, hf'] at hrelated; cases hrelated
  | decimal =>
    cases hf' : next.type.name.family with
    | decimal =>
      obtain ⟨r, r', h, h', hnone⟩ := hreadAs (by rw [hf]; rfl) (by rw [hf']; rfl)
      have hverdict := verdict_decimal charset charset' live.shown h h' hf hf' hnone
      refine ⟨hverdict.1, fun hsign => hverdict.2 ?_⟩
      obtain ⟨p, s, -, htype⟩ := columnType_decimal hf h.args
      obtain ⟨p', s', -, htype'⟩ := columnType_decimal hf' h'.args
      rw [htype, htype'] at hsign
      exact hsign.1
    | _ => rw [hf, hf'] at hrelated; cases hrelated
  | chars =>
    cases hf' : next.type.name.family with
    | chars =>
      rw [hf, hf'] at hrelated
      obtain ⟨r, r', h, h', hnone⟩ := hreadAs (by rw [hf]; rfl) (by rw [hf']; rfl)
      refine ⟨verdict_chars live.shown h h' hf hf' ?_ hnone, ?_⟩
      · rw [hstored]
        exact of_decide_eq_true hrelated
      · obtain ⟨length, htype⟩ := exists_chars hf
        rw [htype]
        exact False.elim
    | text size =>
      obtain ⟨length, htype⟩ := exists_chars hf
      obtain ⟨size', htype', -⟩ := columnType_text hf' charset'
      rw [htype, htype']
      exact ⟨.charsText length _, False.elim⟩
    | blob size =>
      obtain ⟨length, htype⟩ := exists_chars hf
      obtain ⟨size', htype', -⟩ := columnType_blob hf' charset'
      rw [htype, htype']
      exact ⟨.charsBlob length _, False.elim⟩
    | _ => rw [hf, hf'] at hrelated; cases hrelated
  | text size =>
    cases hf' : next.type.name.family with
    | text size' =>
      obtain ⟨lobSize, htype, -⟩ := columnType_text hf charset
      obtain ⟨lobSize', htype', -⟩ := columnType_text hf' charset'
      rw [htype, htype']
      exact ⟨.text _ lobSize.four_le_capacity, False.elim⟩
    | _ => rw [hf, hf'] at hrelated; cases hrelated
  | blob size =>
    cases hf' : next.type.name.family with
    | blob size' =>
      obtain ⟨lobSize, htype, -⟩ := columnType_blob hf charset
      obtain ⟨lobSize', htype', -⟩ := columnType_blob hf' charset'
      rw [htype, htype']
      exact ⟨.blob _ _, False.elim⟩
    | _ => rw [hf, hf'] at hrelated; cases hrelated
  | date =>
    cases hf' : next.type.name.family with
    | date =>
      rw [columnType_date hf, columnType_date hf']
      exact ⟨.date, False.elim⟩
    | moment =>
      rw [columnType_date hf, columnType_moment hf']
      exact ⟨.dateMoment _, False.elim⟩
    | _ => rw [hf, hf'] at hrelated; cases hrelated
  | moment =>
    cases hf' : next.type.name.family with
    | moment =>
      rw [hf, hf', Bool.or_eq_true] at hrelated
      obtain ⟨r, r', h, h', hnone⟩ := hreadAs (by rw [hf]; rfl) (by rw [hf']; rfl)
      refine ⟨verdict_moment h h' hf hf' ?_ hnone, ?_⟩
      · rw [hstored]
        exact hrelated.imp of_decide_eq_true of_decide_eq_true
      · rw [columnType_moment hf]
        exact False.elim
    | _ => rw [hf, hf'] at hrelated; cases hrelated
  | time =>
    cases hf' : next.type.name.family with
    | time =>
      obtain ⟨r, r', h, h', hnone⟩ := hreadAs (by rw [hf]; rfl) (by rw [hf']; rfl)
      refine ⟨verdict_time h h' hf hf' hnone, ?_⟩
      rw [columnType_time hf]
      exact False.elim
    | _ => rw [hf, hf'] at hrelated; cases hrelated
  | enum =>
    cases hf' : next.type.name.family with
    | enum =>
      rw [columnType_enum hf, columnType_enum hf']
      exact ⟨.enum _ _, False.elim⟩
    | _ => rw [hf, hf'] at hrelated; cases hrelated
  | set =>
    cases hf' : next.type.name.family with
    | set =>
      rw [columnType_set hf, columnType_set hf']
      exact ⟨.set _ _, False.elim⟩
    | _ => rw [hf, hf'] at hrelated; cases hrelated


theorem isList_of_membersLost {t : TypeSpec} {charset : Charset} {type' : ColumnType}
    (h : MembersLost (t.columnType charset) type') : t.name.family.isList = true := by
  cases hf : t.name.family with
  | enum => rfl
  | set => rfl
  | _ =>
    unfold TypeSpec.columnType at h
    rw [hf] at h
    cases hargs : t.args <;> rw [hargs] at h <;> exact False.elim h

theorem exists_members {t : TypeSpec} (h : t.name.family.isList = true) :
    t.args = .members t.args.list := by
  have htakes := t.takes
  cases hf : t.name.family with
  | enum =>
    cases hargs : t.args with
    | members list => rfl
    | _ => rw [hf, hargs] at htakes; cases htakes
  | set =>
    cases hargs : t.args with
    | members list => rfl
    | _ => rw [hf, hargs] at htakes; cases htakes
  | _ => rw [hf] at h; cases h

/-- Members that are written alike are the same. -/
theorem mem_names {live next : TypeSpec} {args args' : Option (List Char)}
    (hlist : live.name.family.isList = true) (hlist' : next.name.family.isList = true)
    (hargs : live.args.ReadAs args) (hargs' : next.args.ReadAs args')
    (hquotes : ∀ m ∈ live.args.list, m.q = '\'') (hquotes' : ∀ m ∈ next.args.list, m.q = '\'')
    (hkept : ∀ v ∈ enumValues args, v ∈ enumValues args') :
    ∀ name ∈ live.args.list.map Member.name, name ∈ next.args.list.map Member.name := by
  rw [exists_members hlist] at hargs
  rw [exists_members hlist'] at hargs'
  rw [hargs hquotes, hargs' hquotes'] at hkept
  intro name hname
  obtain ⟨m, hm, rfl⟩ := List.mem_map.mp hname
  obtain ⟨m', hm', hbody⟩ := List.mem_map.mp (hkept m.body (List.mem_map_of_mem hm))
  refine List.mem_map.mpr ⟨m', hm', Member.name_eq ?_ hbody⟩
  rw [hquotes' m' hm', hquotes m hm]

theorem ReadAs.name_enum {t : TypeSpec} {r : TypeText} (h : ReadAs t r)
    (hf : t.name.family = .enum) : r.name = "enum".toList := by
  have hstored : t.name.stored = .enum := by
    cases hn : t.name <;> rw [hn] at hf <;> first | rfl | cases hf
  rw [h.name, hstored]
  rfl

theorem ReadAs.name_set {t : TypeSpec} {r : TypeText} (h : ReadAs t r)
    (hf : t.name.family = .set) : r.name = "set".toList := by
  have hstored : t.name.stored = .set := by
    cases hn : t.name <;> rw [hn] at hf <;> first | rfl | cases hf
  rw [h.name, hstored]
  rfl

/-- Lists under one name. -/
theorem verdict_members {live next : TypeSpec} {r r' : TypeText} (hlive : live.IsShown)
    (h : ReadAs live r) (h' : ReadAs next r') (hlist : live.name.family.isList = true)
    (hlist' : next.name.family.isList = true)
    (hname : r.name = "enum".toList ∨ r.name = "set".toList) (hsame : r'.name = r.name)
    (hquotes : ∀ m ∈ next.args.list, m.q = '\'') (hnone : narrowedCanonical r r' = none) :
    ∀ name ∈ live.args.list.map Member.name, name ∈ next.args.list.map Member.name := by
  have htables : intRank r.name = none ∧ textRank r.name = none ∧ blobRank r.name = none ∧
      isSized r.name = false := by
    rcases hname with hname | hname <;> rw [hname] <;> exact ⟨rfl, rfl, rfl, rfl⟩
  obtain ⟨hint, htext, hblob, hsized⟩ := htables
  have hkept := narrowedCanonical_members hint htext hblob hsized hname hsame hnone
  refine mem_names hlist hlist' h.args h'.args hlive.members hquotes fun v hv => ?_
  by_contra hnot
  have hlost : v ∈ lostMembers r r' := by
    refine List.mem_filter.mpr ⟨hv, ?_⟩
    simpa using hnot
  rw [hkept] at hlost
  exact absurd hlost List.not_mem_nil

/-- Where the lists are not cut off, the guard compares all members. -/
theorem not_membersLost (hreads : Reads text next.atoms) (charset charset' : Charset)
    (hclean : ∀ m ∈ live.type.args.list, ')' ∉ m.body)
    (hclean' : ∀ m ∈ next.type.args.list, ')' ∉ m.body)
    (hquotes : ∀ m ∈ next.type.args.list, m.q = '\'')
    (hnone : narrowedType (parseLiveType live.row.columnType) (parseType text) = none) :
    ¬MembersLost (live.type.columnType charset) (next.type.columnType charset') := by
  intro hlost
  have hlist := isList_of_membersLost hlost
  have hrelated := (related_of_none hreads hnone).2
  unfold related at hrelated
  rw [family_stored] at hrelated
  obtain ⟨r, r', h, h', hcanonical⟩ := readAs_of_none hreads hclean hclean' hnone
  cases hf : live.type.name.family with
  | enum =>
    cases hf' : next.type.name.family with
    | enum =>
      rw [columnType_enum hf, columnType_enum hf'] at hlost
      obtain ⟨name, hname, hgone⟩ := hlost
      refine hgone (verdict_members live.shown h h' hlist (by rw [hf']; rfl)
        (Or.inl (h.name_enum hf)) ?_ hquotes hcanonical name hname)
      rw [h.name_enum hf, h'.name_enum hf']
    | _ => rw [hf, hf'] at hrelated; cases hrelated
  | set =>
    cases hf' : next.type.name.family with
    | set =>
      rw [columnType_set hf, columnType_set hf'] at hlost
      obtain ⟨name, hname, hgone⟩ := hlost
      refine hgone (verdict_members live.shown h h' hlist (by rw [hf']; rfl)
        (Or.inr (h.name_set hf)) ?_ hquotes hcanonical name hname)
      rw [h.name_set hf, h'.name_set hf']
    | _ => rw [hf, hf'] at hrelated; cases hrelated
  | _ => rw [hf] at hlist; cases hlist


end Texts

end XChainDecoder.Migrate
