import XChainDecoder.Migrate.Verdict

/-! # What the guard lets through

    A MODIFY without a loss keeps every value of the live column, unless it slips: NULL
    forbidden in other words, a sign between two integer types, ASCII for LATIN1, LATIN1
    in more bytes, a TEXT with a length, a member with a parenthesis inside.

    **Main theorem.** `within_iff_not_slips`. -/

namespace XChainDecoder.Migrate

open Sql Column

/-! ## Section 1: What the guard lets slip -/

/-- LATIN1 is stored in more bytes, or a length makes a smaller TEXT or BLOB. -/
def LengthUnseen (charset charset' : Charset) (next : TypeSpec) : Prop :=
  (charset = .latin1 ∧ (charset' = .utf8 ∨ charset' = .utf8mb4)) ∨ ∃ n, next.args = .one n

/-- The two sets count as one, or the guard does not see the one that is meant. -/
def CharsetUnseen (charset charset' : Charset) (next : Definition) : Prop :=
  (charset = .latin1 ∧ charset' = .ascii) ∨ next.BreaksLine ∨
    ∃ a ∈ next.attributes, a.isUnread = true

/-- A parenthesis inside a member ends the list; a double quote counts as a part of the
    member. -/
def MembersUnseen (live next : TypeSpec) : Prop :=
  (∃ m ∈ live.args.list ++ next.args.list, ')' ∈ m.body) ∨ ∃ m ∈ next.args.list, m.q ≠ '\''

/-- NULL is forbidden in other words than NOT NULL and PRIMARY KEY. -/
def NullUnseen (next : Definition) : Prop :=
  next.BreaksLine ∨ next.attributes.any Attribute.saysNotNull = false

/-- A MODIFY that loses values without a word from the guard. -/
inductive Slips (explicitDefaults : Bool) (live : LiveColumn) (next : Definition) : Prop
  | null (hlive : live.domain.nullable = true) (hnext : next.nullable explicitDefaults = false)
      (hunseen : NullUnseen next)
  | sign (h : SignLost live.domain.type (next.domain explicitDefaults live.table).type)
      (hunseen : SignUnseen live.type next.type)
  | chars (h : CharsLost live.charset (next.charset live.table) live.domain.type
        (next.domain explicitDefaults live.table).type)
      (hunseen : CharsetUnseen live.charset (next.charset live.table) next)
  | bytes (h : BytesLost live.charset (next.charset live.table) live.domain.type
        (next.domain explicitDefaults live.table).type)
      (hunseen : LengthUnseen live.charset (next.charset live.table) next.type)
  | members (h : MembersLost live.domain.type (next.domain explicitDefaults live.table).type)
      (hunseen : MembersUnseen live.type next.type)

/-! ## Section 2: Nothing else slips -/

section Slips

variable {live : LiveColumn} {next : Definition} {text : List Char}

theorem lossIf_eq_nil {condition : Bool} {message : List Char} (h : lossIf condition message = []) :
    condition = false := by
  cases condition with
  | false => rfl
  | true => cases h

/-- No loss of any kind. -/
theorem losses_eq_nil (h : losses live.row text = []) :
    nullLosses live.row (lexemes (blankLiterals text)) = [] ∧ typeLosses live.row text = [] ∧
      charsetLosses live.row (blankLiterals text) = [] ∧
      collationLosses live.row text (blankLiterals text) = [] := by
  unfold losses at h
  simp only [List.append_eq_nil_iff] at h
  exact ⟨h.1.1.1.2, h.1.1.2, h.1.2, h.2⟩

theorem narrowedType_of_typeLosses (h : typeLosses live.row text = []) :
    narrowedType (parseLiveType live.row.columnType) (parseType text) = none := by
  unfold typeLosses at h
  split at h
  · cases h
  · assumption

theorem nullUnseen (hreads : Reads text next.atoms) (hlive : live.domain.nullable = true)
    (h : nullLosses live.row (lexemes (blankLiterals text)) = []) : NullUnseen next := by
  by_contra hseen
  obtain ⟨hbreaks, hsays⟩ := not_or.mp hseen
  have hcondition := lossIf_eq_nil h
  have hrow : isNullableRow live.row = true := hlive
  rw [hrow, Bool.true_and, Bool.or_eq_false_iff] at hcondition
  rcases Definition.saysNotNull_lexemes hreads hbreaks ((Bool.not_eq_false _).mp hsays) with hin | hin
  · exact of_decide_eq_false hcondition.1 hin
  · exact of_decide_eq_false hcondition.2 hin

theorem membersUnseen (hreads : Reads text next.atoms) (charset charset' : Charset)
    (hnone : narrowedType (parseLiveType live.row.columnType) (parseType text) = none)
    (h : MembersLost (live.type.columnType charset) (next.type.columnType charset')) :
    MembersUnseen live.type next.type := by
  by_contra hseen
  obtain ⟨hclean, hquotes⟩ := not_or.mp hseen
  refine not_membersLost hreads charset charset' (fun m hm hmem => hclean ⟨m, ?_, hmem⟩)
    (fun m hm hmem => hclean ⟨m, ?_, hmem⟩) (fun m hm => by_contra fun hq => hquotes ⟨m, hm, hq⟩)
    hnone h
  · exact List.mem_append_left _ hm
  · exact List.mem_append_right _ hm

theorem maxWidth_le {charset charset' : Charset}
    (h : ¬(charset = .latin1 ∧ (charset' = .utf8 ∨ charset' = .utf8mb4))) :
    charset.maxWidth charset' ≤ charset.maxWidth charset := by
  revert h
  cases charset <;> cases charset' <;> decide

theorem growth_eq_one {charset charset' : Charset}
    (h : ¬(charset = .latin1 ∧ (charset' = .utf8 ∨ charset' = .utf8mb4))) :
    charset.growth charset' = 1 := by
  revert h
  cases charset <;> cases charset' <;> decide

/-- Without a length and without LATIN1 there is room for everything. -/
theorem lengthUnseen (hreads : Reads text next.atoms) (charset' : Charset)
    (hnone : narrowedType (parseLiveType live.row.columnType) (parseType text) = none)
    (h : BytesLost live.charset charset' (live.type.columnType live.charset)
      (next.type.columnType charset')) : LengthUnseen live.charset charset' next.type := by
  by_contra hseen
  obtain ⟨hlatin, hlength⟩ := not_or.mp hseen
  have hsize : ∀ n, next.type.args ≠ .one n := fun n hn => hlength ⟨n, hn⟩
  have hrelated := (related_of_none hreads hnone).2
  unfold related at hrelated
  rw [family_stored] at hrelated
  have hreadAs := readAs_of_not_list hreads hnone
  cases hf : live.type.name.family with
  | chars =>
    obtain ⟨n, hn⟩ := live.shown.chars hf
    have htype : live.type.columnType live.charset = .chars n.value := by
      unfold TypeSpec.columnType
      rw [hf, hn]
    have hfits := live.fits n.value htype
    -- a VARCHAR fits a plain TEXT, at four bytes a character
    have hwidth := Nat.mul_le_mul_left n.value (maxWidth_le hlatin)
    rw [htype] at h
    cases hf' : next.type.name.family with
    | text size =>
      rw [hf, hf'] at hrelated
      obtain ⟨size', htype', hsame⟩ := columnType_text hf' charset'
      have hrank : LobSize.plain.rank ≤ size.rank := of_decide_eq_true hrelated
      have hplain := LobSize.capacity_le hrank
      rw [htype', hsame hsize] at h
      have hlost : size.capacity < n.value * live.charset.maxWidth charset' := h
      omega
    | blob size =>
      rw [hf, hf'] at hrelated
      obtain ⟨size', htype', hsame⟩ := columnType_blob hf' charset'
      have hrank : LobSize.plain.rank ≤ size.rank := of_decide_eq_true hrelated
      have hplain := LobSize.capacity_le hrank
      rw [htype', hsame hsize] at h
      have hlost : size.capacity < n.value * live.charset.maxWidth live.charset := h
      omega
    | chars =>
      cases hargs : next.type.args <;> unfold TypeSpec.columnType at h <;> rw [hf', hargs] at h <;>
        exact h
    | _ => rw [hf, hf'] at hrelated; cases hrelated
  -- a TEXT that is read has no smaller rank, and no length of its own
  | text size =>
    cases hf' : next.type.name.family with
    | text size' =>
      obtain ⟨r, r', hr, hr', hcanonical⟩ := hreadAs (by rw [hf]; rfl) (by rw [hf']; rfl)
      have hrank := verdict_text hr hr' hf hf' hcanonical
      obtain ⟨lobSize, htype, hsame⟩ := columnType_text hf live.charset
      obtain ⟨lobSize', htype', hsame'⟩ := columnType_text hf' charset'
      have hnoLength : ∀ n, live.type.args ≠ .one n := by
        intro n hn
        rw [live.shown.lob size (Or.inl hf)] at hn
        cases hn
      rw [htype, htype', hsame hnoLength, hsame' hsize] at h
      have hlost : size'.capacity < live.charset.growth charset' * size.capacity := h
      rw [growth_eq_one hlatin, Nat.one_mul] at hlost
      exact absurd (LobSize.capacity_le hrank) (by omega)
    | _ => rw [hf, hf'] at hrelated; cases hrelated
  | blob size =>
    cases hf' : next.type.name.family with
    | blob size' =>
      obtain ⟨r, r', hr, hr', hcanonical⟩ := hreadAs (by rw [hf]; rfl) (by rw [hf']; rfl)
      have hrank := verdict_blob hr hr' hf hf' hcanonical
      obtain ⟨lobSize, htype, hsame⟩ := columnType_blob hf live.charset
      obtain ⟨lobSize', htype', hsame'⟩ := columnType_blob hf' charset'
      have hnoLength : ∀ n, live.type.args ≠ .one n := by
        intro n hn
        rw [live.shown.lob size (Or.inr hf)] at hn
        cases hn
      rw [htype, htype', hsame hnoLength, hsame' hsize] at h
      have hlost : size'.capacity < size.capacity := h
      exact absurd (LobSize.capacity_le hrank) (by omega)
    | _ => rw [hf, hf'] at hrelated; cases hrelated
  | _ =>
    cases hargs : live.type.args <;> unfold TypeSpec.columnType at h <;> rw [hf, hargs] at h <;>
      exact h


namespace CharsetName

/-- How MariaDB reports it since 10.6. -/
def reported : CharsetName → CharsetName
  | utf8 => utf8mb3
  | name => name

theorem charset_reported (name : CharsetName) : name.reported.charset = name.charset := by
  cases name <;> rfl

theorem letters_inj {name name' : CharsetName} (h : name.letters = name'.letters) : name = name' := by
  revert h
  cases name <;> cases name' <;> decide

def rank : CharsetName → ℕ
  | ascii | latin1 => 1
  | utf8 | utf8mb3 => 3
  | utf8mb4 => 4

theorem charsetRank_letters (name : CharsetName) : charsetRank name.letters = some name.rank := by
  cases name <;> rfl

/-- A rank that is no smaller is a wider set, but for LATIN1 and ASCII. -/
theorem rank_le {name name' : CharsetName} (hle : name.rank ≤ name'.rank)
    (hlatin : ¬(name.charset = .latin1 ∧ name'.charset = .ascii)) :
    name.charset.rank ≤ name'.charset.rank := by
  revert hle hlatin
  cases name <;> cases name' <;> decide

end CharsetName

/-- The key of a collation tells the set. -/
theorem collationKey_eq {name : Option (List Char)} {c : Collation}
    (h : name.map lower = some c.letters) : ∃ key, collationKey name = some key ∧
      key.takeWhile (· ≠ '_') = c.name.reported.letters := by
  obtain ⟨letters, rfl, hlower⟩ := Option.map_eq_some_iff.mp h
  have hkey : collationKey (some letters) =
      if "utf8_".toList.isPrefixOf (lower letters) then
        some ("utf8mb3_".toList ++ (lower letters).drop 5)
      else some (lower letters) := by
    cases letters with
    | nil =>
      have hmem : '_' ∈ c.letters := List.mem_append_right _ List.mem_cons_self
      rw [← hlower] at hmem
      exact absurd hmem List.not_mem_nil
    | cons d letters => rfl
  rw [hkey, hlower]
  have hletters := c.takeWhile_letters
  unfold Collation.letters at hletters ⊢
  cases hname : c.name with
  | utf8 => exact ⟨_, rfl, rfl⟩
  | _ =>
    rw [hname] at hletters
    exact ⟨_, rfl, hletters⟩

theorem charset_of_key_eq {name name' : Option (List Char)} {c c' : Collation}
    (h : name.map lower = some c.letters) (h' : name'.map lower = some c'.letters)
    (hsame : collationKey name = collationKey name') : c.name.charset = c'.name.charset := by
  obtain ⟨key, hkey, hreported⟩ := collationKey_eq h
  obtain ⟨key', hkey', hreported'⟩ := collationKey_eq h'
  rw [hkey, hkey', Option.some.injEq] at hsame
  rw [hsame, hreported'] at hreported
  rw [← CharsetName.charset_reported, ← CharsetName.charset_reported c'.name,
    CharsetName.letters_inj hreported]

/-- Characters are lost between texts only. -/
theorem isTextual_of_charsLost {t t' : TypeSpec} {charset charset' : Charset}
    (h : CharsLost charset charset' (t.columnType charset) (t'.columnType charset')) :
    t.name.family.isTextual = true ∧ isTextual t'.name.letters = true ∧
      charset'.rank < charset.rank := by
  have hchars : t'.name.family = .chars → isTextual t'.name.letters = true := by
    intro hf'
    cases hn : t'.name <;> rw [hn] at hf' <;> first | rfl | cases hf'
  have htext : ∀ size, t'.name.family = .text size → isTextual t'.name.letters = true := by
    intro size hf'
    cases hn : t'.name <;> rw [hn] at hf' <;> first | rfl | cases hf'
  -- characters are lost between two types of text only; every other pair loses none
  cases hf : t.name.family with
  | chars =>
    obtain ⟨length, htype⟩ := exists_chars hf
    rw [htype] at h
    cases hf' : t'.name.family with
    | chars =>
      obtain ⟨length', htype'⟩ := exists_chars hf'
      rw [htype'] at h
      exact ⟨rfl, hchars hf', h.2⟩
    | text size =>
      obtain ⟨size', htype', -⟩ := columnType_text hf' charset'
      rw [htype'] at h
      exact ⟨rfl, htext size hf', h.2⟩
    | _ =>
      unfold TypeSpec.columnType at h
      cases hargs : t'.args <;> rw [hf', hargs] at h <;> exact False.elim h
  | text size =>
    obtain ⟨lobSize, htype, -⟩ := columnType_text hf charset
    rw [htype] at h
    cases hf' : t'.name.family with
    | text size' =>
      obtain ⟨lobSize', htype', -⟩ := columnType_text hf' charset'
      rw [htype'] at h
      exact ⟨rfl, htext size' hf', h⟩
    | _ =>
      unfold TypeSpec.columnType at h
      cases hargs : t'.args <;> rw [hf', hargs] at h <;> exact False.elim h
  | _ =>
    unfold TypeSpec.columnType at h
    cases hargs : t.args <;> rw [hf, hargs] at h <;> exact False.elim h

/-- The guard compares the sets where it reads the one that is meant. -/
theorem charsetUnseen (hreads : Reads text next.atoms)
    (hset : charsetLosses live.row (blankLiterals text) = [])
    (hcollation : collationLosses live.row text (blankLiterals text) = [])
    (h : CharsLost live.charset (next.charset live.table) (live.type.columnType live.charset)
      (next.type.columnType (next.charset live.table))) :
    CharsetUnseen live.charset (next.charset live.table) next := by
  by_contra hseen
  obtain ⟨hlatin, hrest⟩ := not_or.mp hseen
  obtain ⟨hbreaks, hattributes⟩ := not_or.mp hrest
  have hunread : ∀ a ∈ next.attributes, a.isUnread = false := by
    intro a ha
    cases hread : a.isUnread with
    | false => rfl
    | true => exact absurd ⟨a, ha, hread⟩ hattributes
  obtain ⟨hlive, hnext, hlt⟩ := isTextual_of_charsLost h
  obtain ⟨name, collation, default, hname, hcharset, hlow, hown, htable, htableSet⟩ := live.named hlive
  obtain ⟨letters, hletters, hlower⟩ := Option.map_eq_some_iff.mp hname
  -- what the guard reads on either side is what the definitions say
  have hliveSet : liveSet live.row = some name.letters := by
    unfold liveSet
    rw [hletters]
    cases letters with
    | nil => cases name <;> cases hlower
    | cons d letters => exact congrArg some hlower
  have hdeclared : declaredCharset (blankLiterals text) = next.names.map CharsetName.letters :=
    next.declaredCharset_eq hreads hbreaks hunread
  -- a character set of its own, or the one of the table
  cases hnames : next.names with
  | some name' =>
    have hnextSet := Definition.charset_of_names hnames live.table
    unfold charsetLosses at hset
    rw [hliveSet, hdeclared, hnames] at hset
    have hcondition := lossIf_eq_nil hset
    simp only [CharsetName.charsetRank_letters, Bool.and_eq_false_iff, decide_eq_false_iff_not, not_not,
      not_lt] at hcondition
    have hle : name.charset.rank ≤ name'.charset.rank := by
      rcases hcondition with heq | hle
      · rw [CharsetName.letters_inj heq]
      · refine CharsetName.rank_le hle ?_
        rw [hcharset, ← hnextSet]
        exact hlatin
    rw [hcharset, ← hnextSet] at hle
    omega
  | none =>
    have hnextSet := Definition.charset_of_names_none hunread hnames live.table
    obtain ⟨parsed, hparsed, hparsedName⟩ := next.type.parseType_name hreads
    obtain ⟨key, hkey, -⟩ := collationKey_eq hlow
    obtain ⟨key', hkey', -⟩ := collationKey_eq htable
    unfold collationLosses at hcollation
    rw [hliveSet, hdeclared, hnames, hparsed, hkey, hkey'] at hcollation
    have hcondition := lossIf_eq_nil hcollation
    rw [hparsedName, hnext, Bool.true_and, decide_eq_false_iff_not, not_not] at hcondition
    have hsame := charset_of_key_eq hlow htable (by rw [hkey, hkey', hcondition])
    rw [hown, htableSet, ← hnextSet] at hsame
    rw [hsame] at hlt
    omega


/-- A MODIFY that the guard lets through keeps every value, unless it slips. -/
theorem within_iff_not_slips (explicitDefaults : Bool) (live : LiveColumn) (next : Definition)
    (text : List Char) (hreads : Reads text next.atoms) (h : losses live.row text = []) :
    live.domain.Within (next.domain explicitDefaults live.table) ↔
      ¬Slips explicitDefaults live next := by
  obtain ⟨hnull, htype, hset, hcollation⟩ := losses_eq_nil h
  have hnone := narrowedType_of_typeLosses htype
  obtain ⟨hkindred, hsign⟩ := kindred_of_none hreads live.charset (next.charset live.table) hnone
  have hfits := @fits_iff live.charset (next.charset live.table) _ _ hkindred
  rw [within_iff]
  constructor
  · rintro ⟨hnullable, hfit⟩ hslips
    have hkept := hfits.mp hfit
    cases hslips with
    | null hlive hnext hunseen =>
      have hnext' : next.nullable explicitDefaults = true := hnullable hlive
      rw [hnext] at hnext'
      cases hnext'
    | sign h hunseen => exact hkept (Or.inl h)
    | chars h hunseen => exact hkept (Or.inr (Or.inl h))
    | bytes h hunseen => exact hkept (Or.inr (Or.inr (Or.inl h)))
    | members h hunseen => exact hkept (Or.inr (Or.inr (Or.inr h)))
  · intro hslips
    refine ⟨fun hlive => ?_, hfits.mpr ?_⟩
    · by_contra hnext
      exact hslips (.null hlive ((Bool.not_eq_true _).mp hnext) (nullUnseen hreads hlive hnull))
    · rintro (h | h | h | h)
      · exact hslips (.sign h (hsign h))
      · exact hslips (.chars h (charsetUnseen hreads hset hcollation h))
      · exact hslips (.bytes h (lengthUnseen hreads _ hnone h))
      · exact hslips (.members h (membersUnseen hreads _ _ hnone h))


end Slips

/-! ## Section 3: A sign that slips -/

/-- `INT`, not NULL and with no attribute. -/
def intColumn : LiveColumn where
  row := ⟨some "int".toList, none, none, none, none, some "NO".toList, none, none,
    some "utf8mb4_general_ci".toList⟩
  type := ⟨.int, .none, [], rfl, fun h => absurd rfl h⟩
  charset := .utf8mb4
  table := .utf8mb4
  shown :=
    { name := rfl
      decimal := fun h => Family.noConfusion h
      chars := fun h => Family.noConfusion h
      lob := fun _ _ => rfl
      members := fun _ h => absurd h List.not_mem_nil
      options := Or.inl rfl }
  reads := by
    show Reads ("int".toList ++ []) [.word (lower "int".toList)]
    exact .word (by decide) (by decide) rfl .done
  named := fun h => Bool.noConfusion h
  fits := fun _ h => ColumnType.noConfusion h

/-- `BIGINT NOT NULL`, with the options. -/
def bigintDefinition (options : List NumberOption) : Definition where
  type := ⟨.bigint, .none, options, rfl, fun _ => rfl⟩
  attributes := [.notNull]
  agree := by simp [Attribute.states]
  nullness := fun h => Bool.noConfusion h
  keyed := by
    intro front back h
    cases front with
    | nil => cases h
    | cons a front => simp at h


theorem reads_bigint : Reads "BIGINT NOT NULL".toList (bigintDefinition []).atoms := by
  show Reads ("BIGINT".toList ++ ' ' :: ("NOT".toList ++ ' ' :: ("NULL".toList ++ [])))
    [.word (lower "BIGINT".toList), .word (lower "NOT".toList), .word (lower "NULL".toList)]
  exact .word (by decide) (by decide) rfl (.space rfl (.word (by decide) (by decide) rfl
    (.space rfl (.word (by decide) (by decide) rfl .done))))

theorem reads_bigintUnsigned :
    Reads "BIGINT UNSIGNED NOT NULL".toList (bigintDefinition [.unsigned]).atoms := by
  show Reads ("BIGINT".toList ++ ' ' :: ("UNSIGNED".toList ++ ' ' :: ("NOT".toList ++ ' ' ::
      ("NULL".toList ++ []))))
    [.word (lower "BIGINT".toList), .word (lower "UNSIGNED".toList), .word (lower "NOT".toList),
      .word (lower "NULL".toList)]
  exact .word (by decide) (by decide) rfl (.space rfl (.word (by decide) (by decide) rfl
    (.space rfl (.word (by decide) (by decide) rfl
      (.space rfl (.word (by decide) (by decide) rfl .done))))))

/-- A wider integer type with a sign keeps everything. -/
theorem within_bigint : losses intColumn.row "BIGINT NOT NULL".toList = [] ∧
    (intColumn.domain.Within ((bigintDefinition []).domain true intColumn.table) ↔
      ¬Slips true intColumn (bigintDefinition [])) := by
  have hlosses : losses intColumn.row "BIGINT NOT NULL".toList = [] := by decide
  exact ⟨hlosses, within_iff_not_slips true intColumn _ _ reads_bigint hlosses⟩

/-- `INT` to `BIGINT UNSIGNED` is no loss to the guard, and -1 is not in it. -/
theorem losses_unsound : ¬∀ (explicitDefaults : Bool) (live : LiveColumn) (next : Definition)
    (text : List Char), Reads text next.atoms → losses live.row text = [] →
      live.domain.Within (next.domain explicitDefaults live.table) := by
  intro hsound
  have hwithin := hsound true intColumn (bigintDefinition [.unsigned]) _ reads_bigintUnsigned
    (by decide)
  have hheld : intColumn.domain.holds intColumn.domain.charset (.number (-1)) :=
    @holds_minus_one .utf8mb4 .int
  have hnonneg := @nonneg_of_holds .utf8mb4 .utf8mb4 true .bigint (-1) rfl (hwithin _ hheld)
  norm_num at hnonneg

end XChainDecoder.Migrate
